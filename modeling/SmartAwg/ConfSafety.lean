import SmartAwg.ConfParser

/-! Which texts make `FromWgQuick` panic. All slice expressions have bounds that come from
the string they cut, except one: the key is cut from the lower-cased line at the offset the
equals sign has in the line itself, and lower-casing can shorten a string. -/
namespace SmartAwg.Conf
open Go

theorem cutCidr_safe (s : Str) : (cutCidr s).Safe := by
  unfold cutCidr
  split
  · exact Outcome.safe_ok _
  · rename_i i hi
    have hlt := indexByte_lt s _ i hi
    refine Outcome.safe_bind _ _ (slice_safe s 0 i (by omega) (by omega)) fun addr _ => ?_
    refine Outcome.safe_bind _ _ (slice_safe s (i + 1) s.length (by omega) (by omega)) fun _ _ => ?_
    exact Outcome.safe_ok _

theorem parseIPCidr_safe (s : Str) : (parseIPCidr s).Safe :=
  Outcome.safe_bind _ _ (cutCidr_safe s) fun _ _ => Outcome.safe_ofExcept _

theorem bracketEnd_bounds (host : Str) (h : 3 < host.length) :
    1 ≤ bracketEnd host ∧ bracketEnd host ≤ host.length := by
  unfold bracketEnd
  split
  · rename_i i hi
    have := lastIndexByte_lt host _ i hi
    split <;> omega
  · omega

theorem parseBracketHost_safe (host : Str) (colon : Option Nat) (h : 0 < host.length) :
    (parseBracketHost host colon).Safe := by
  unfold parseBracketHost
  refine Outcome.safe_bind _ _ (index_safe host 0 h) fun first _ => ?_
  refine Outcome.safe_bind _ _ (index_safe host _ (by omega)) fun last _ => ?_
  split
  · rename_i hlong
    obtain ⟨h1, h2⟩ := bracketEnd_bounds host hlong.1
    refine Outcome.safe_bind _ _ (slice_safe host _ _ h1 h2) fun literal _ => ?_
    split
    · exact Outcome.safe_err _
    · split
      · exact Outcome.safe_err _
      · exact slice_safe host _ _ (by omega) (by omega)
  · exact Outcome.safe_err _

theorem parseEndpoint_safe (s : Str) : (parseEndpoint s).Safe := by
  unfold parseEndpoint
  split
  · exact Outcome.safe_err _
  · rename_i i hi
    have hlt := lastIndexByte_lt s _ i hi
    refine Outcome.safe_bind _ _ (slice_safe s 0 i (by omega) (by omega)) fun host _ => ?_
    refine Outcome.safe_bind _ _ (slice_safe s (i + 1) s.length (by omega) (by omega)) fun _ _ => ?_
    split
    · exact Outcome.safe_err _
    · rename_i hpos
      refine Outcome.safe_bind _ _ (Outcome.safe_ofExcept _) fun port _ => ?_
      refine Outcome.safe_bind _ _ (index_safe host 0 (by omega)) fun first _ => ?_
      refine Outcome.safe_bind _ _ (index_safe host _ (by omega)) fun last _ => ?_
      split
      · exact Outcome.safe_bind _ _ (parseBracketHost_safe host _ (by omega))
          fun _ _ => Outcome.safe_ok _
      · exact Outcome.safe_ok _

/-- The loop over the tags: the closing bracket follows the opening one, and what is left
is shorter, so the fuel lasts. -/
theorem cpsLoop_safe (fuel : Nat) (rest : Str) (size count timestamps : Nat)
    (hfuel : rest.length ≤ fuel) : (cpsLoop fuel rest size count timestamps).Safe := by
  induction fuel generalizing rest size count timestamps with
  | zero =>
    have : rest = [] := List.length_eq_zero_iff.mp (by omega)
    simp [cpsLoop, this, Outcome.Safe]
  | succ fuel ih =>
    unfold cpsLoop
    split
    · exact Outcome.safe_ok _
    · rename_i hne
      have hpos := List.length_pos_of_ne_nil hne
      refine Outcome.safe_bind _ _ (index_safe rest 0 hpos) fun first hfirst => ?_
      rw [index_of_lt rest 0 hpos] at hfirst
      split
      · exact Outcome.safe_err _
      · rename_i hlt
        split
        · exact Outcome.safe_err _
        · rename_i close hclose
          have hlen := indexByte_lt rest _ close hclose
          have hone : 1 ≤ close := by
            rcases Nat.eq_zero_or_pos close with rfl | h
            · obtain ⟨a, t, hs, -, ha⟩ := (indexByte_eq_some _ _ _).mp hclose
              have hnil : a = [] := List.length_eq_zero_iff.mp ha.symm
              subst hnil
              subst hs
              cases hfirst
              simp at hlt
            · exact h
          refine Outcome.safe_bind _ _ (slice_safe rest 1 close hone (by omega)) fun _ _ => ?_
          refine Outcome.safe_bind _ _ (Outcome.safe_ofExcept _) fun parts _ => ?_
          refine Outcome.safe_bind _ _ (Outcome.safe_ofExcept _) fun sizes _ => ?_
          dsimp only
          split
          · exact Outcome.safe_err _
          · split
            · exact Outcome.safe_err _
            · rw [sliceFrom_of_le rest (close + 1) (by omega), Outcome.ok_bind]
              apply ih
              refine le_trans (trimSpace_length_le _) ?_
              simp only [List.length_drop]
              omega

theorem validateCPS_safe (spec : Str) : (validateCPS spec).Safe := by
  unfold validateCPS
  split
  · exact Outcome.safe_err _
  · refine Outcome.safe_bind _ _ (cpsLoop_safe _ _ _ _ _ (trimSpace_length_le spec)) fun _ _ => ?_
    split
    · exact Outcome.safe_err _
    · exact Outcome.safe_ok _

theorem validatePackets_safe (entries : List (Sigma fun _ : Str => Str)) :
    (validatePackets entries).Safe := by
  induction entries with
  | nil => exact Outcome.safe_ok _
  | cons entry rest ih =>
    unfold validatePackets
    split
    · exact Outcome.safe_err _
    · split
      · exact ih
      · exact Outcome.safe_err _
      · rename_i hp
        exact absurd hp (validateCPS_safe _)

theorem validateAWG_safe (c : Config) : (validateAWG c).Safe := by
  unfold validateAWG
  simp only
  split
  · exact Outcome.safe_err _
  · split
    · exact Outcome.safe_err _
    · refine Outcome.safe_bind _ _ (Outcome.safe_ofExcept _) fun _ _ => ?_
      refine Outcome.safe_bind _ _ (Outcome.safe_ofExcept _) fun _ _ => ?_
      refine Outcome.safe_bind _ _ (Outcome.safe_ofExcept _) fun _ _ => ?_
      refine Outcome.safe_bind _ _ (Outcome.safe_ofExcept _) fun _ _ => ?_
      refine Outcome.safe_bind _ _ (Outcome.safe_ofExcept _) fun _ _ => ?_
      exact validatePackets_safe _

theorem appendIPCidr_safe (acc : List IPCidr) (address : Str) : (appendIPCidr acc address).Safe :=
  Outcome.safe_bind _ _ (parseIPCidr_safe address) fun _ _ => Outcome.safe_ok _

theorem interface_apply_safe (i : Interface) (key : InterfaceKey) (val : Str) :
    (i.apply key val).Safe := by
  cases key with
  | packet k =>
    simp only [Interface.apply]
    split <;> exact Outcome.safe_ok _
  | headerProtectionKey =>
    simp only [Interface.apply]
    split
    · exact Outcome.safe_ok _
    · exact Outcome.safe_err _
  | text k => exact Outcome.safe_ok _
  | address =>
    refine Outcome.safe_bind _ _ (Outcome.safe_ofExcept _) fun addresses _ => ?_
    exact Outcome.safe_bind _ _ (forEach_safe _ appendIPCidr_safe _ _) fun _ _ => Outcome.safe_ok _
  | _ => exact Outcome.safe_bind _ _ (Outcome.safe_ofExcept _) fun _ _ => Outcome.safe_ok _

theorem peer_apply_safe (p : Peer) (key : PeerKey) (val : Str) : (p.apply key val).Safe := by
  cases key with
  | allowedIPs =>
    refine Outcome.safe_bind _ _ (Outcome.safe_ofExcept _) fun addresses _ => ?_
    exact Outcome.safe_bind _ _ (forEach_safe _ appendIPCidr_safe _ _) fun _ _ => Outcome.safe_ok _
  | endpoint => exact Outcome.safe_bind _ _ (parseEndpoint_safe val) fun _ _ => Outcome.safe_ok _
  | _ => exact Outcome.safe_bind _ _ (Outcome.safe_ofExcept _) fun _ _ => Outcome.safe_ok _

/-- Inside a peer section there is a peer to write to. -/
def ParserState.HasPeer (st : ParserState) : Prop :=
  st.state = .inPeerSection → st.peer.isSome = true

theorem assign_safe (st : ParserState) (hst : st.HasPeer) (key val : Str) :
    (st.assign key val).Safe := by
  unfold ParserState.assign
  split
  · split
    · exact Outcome.safe_err _
    · exact Outcome.safe_bind _ _ (interface_apply_safe _ _ _) fun _ _ => Outcome.safe_ok _
  · rename_i hstate
    split
    · exact Outcome.safe_err _
    · split
      · rename_i hnone
        have := hst hstate
        rw [hnone] at this
        cases this
      · exact Outcome.safe_bind _ _ (peer_apply_safe _ _ _) fun _ _ => Outcome.safe_ok _
  · exact Outcome.safe_ok _

theorem assign_hasPeer (st st' : ParserState) (hst : st.HasPeer) (key val : Str)
    (h : st.assign key val = .ok st') : st'.HasPeer := by
  unfold ParserState.assign at h
  split at h
  · rename_i hstate
    split at h
    · cases h
    · obtain ⟨i, -, hi⟩ := (Outcome.bind_eq_ok _ _ _).mp h
      cases hi
      intro hp
      rw [hstate] at hp
      cases hp
  · split at h
    · cases h
    · split at h
      · cases h
      · obtain ⟨p, -, hp⟩ := (Outcome.bind_eq_ok _ _ _).mp h
        cases hp
        exact fun _ => rfl
  · cases h
    exact hst

/-- A line without its comment and without white space around it. -/
def lineText (raw : Str) : Str := trimSpace (raw.takeWhile fun b => b != 0x23)

theorem stripComment_eq (raw : Str) : stripComment raw = .ok (raw.takeWhile fun b => b != 0x23) := by
  unfold stripComment
  split
  · rename_i h
    have hmem := (indexByte_eq_none raw _).mp h
    congr 1
    symm
    rw [List.takeWhile_eq_self_iff]
    intro b hb
    simp only [bne_iff_ne]
    rintro rfl
    exact hmem hb
  · rename_i pound h
    obtain ⟨a, t, rfl, ha, rfl⟩ := (indexByte_eq_some raw _ _).mp h
    rw [slice_zero_append, List.takeWhile_append_of_pos, List.takeWhile_cons_of_neg (by simp),
      List.append_nil]
    intro b hb
    simp only [bne_iff_ne]
    rintro rfl
    exact ha hb

/-- The equals sign of a key line lies past the end of the lower-cased line. -/
def Overruns (st : ParserState) (raw : Str) : Prop :=
  let line := lineText raw
  line ≠ [] ∧ toLower line ≠ ascii "[interface]" ∧ toLower line ≠ ascii "[peer]" ∧
    st.state ≠ .notInASection ∧
    ∃ equals ∈ indexByte line 0x3D, (toLower line).length < equals

/-- One line panics exactly when its equals sign overruns the lower-cased line. -/
theorem parseLine_eq_panic (st : ParserState) (hst : st.HasPeer) (raw : Str) :
    parseLine st raw = .panic ↔ Overruns st raw := by
  unfold parseLine
  rw [stripComment_eq, Outcome.ok_bind]
  unfold Overruns
  simp only
  rw [← lineText]
  generalize lineText raw = line
  by_cases h0 : line = []
  · simp [h0]
  rw [if_neg (by simpa using h0)]
  by_cases h1 : toLower line = ascii "[interface]"
  · simp [h1]
  rw [if_neg h1]
  by_cases h2 : toLower line = ascii "[peer]"
  · simp [h2]
  rw [if_neg h2]
  by_cases h3 : st.state = .notInASection
  · simp [h3]
  rw [if_neg h3]
  cases heq : indexByte line 0x3D with
  | none => simp
  | some equals =>
    have hlt := indexByte_lt line _ equals heq
    simp only [h0, h1, h2, h3, ne_eq, not_false_eq_true, true_and, Option.mem_def,
      Option.some.injEq, exists_eq_left']
    rw [Outcome.bind_eq_panic, slice_eq_panic]
    refine ⟨fun h => ?_, fun h => Or.inl (Or.inr h)⟩
    rcases h with (h | h) | ⟨keyText, -, h⟩
    · omega
    · exact h
    · rw [sliceFrom_of_le line _ (by omega), Outcome.ok_bind] at h
      split at h
      · cases h
      · exact absurd h (assign_safe st hst _ _)

/-- The key and the value of a line with an equals sign. -/
def keyValue (line : Str) : Option (Str × Str) :=
  (indexByte line 0x3D).map fun equals =>
    (trimSpace ((toLower line).take equals), trimSpace (line.drop (equals + 1)))

/-- What one line can do: nothing, open a section, or set a key. -/
theorem parseLine_cases (st : ParserState) (raw : Str) (st' : ParserState)
    (h : parseLine st raw = .ok st') :
    (lineText raw = [] ∧ st' = st) ∨
    (toLower (lineText raw) = ascii "[interface]" ∧
      st' = { st with conf := st.addPeer, peer := none, state := .inInterfaceSection }) ∨
    (toLower (lineText raw) = ascii "[peer]" ∧
      st' = { st with conf := st.addPeer, peer := some Peer.zero, state := .inPeerSection }) ∨
    (toLower (lineText raw) ≠ ascii "[interface]" ∧ toLower (lineText raw) ≠ ascii "[peer]" ∧
      st.state ≠ .notInASection ∧
      ∃ key val, keyValue (lineText raw) = some (key, val) ∧ st.assign key val = .ok st') := by
  unfold parseLine at h
  rw [stripComment_eq, Outcome.ok_bind] at h
  simp only at h
  rw [← lineText] at h
  split at h
  · rename_i hlen
    cases h
    exact Or.inl ⟨List.eq_nil_of_length_eq_zero hlen, rfl⟩
  split at h
  · rename_i hheader
    cases h
    exact Or.inr (Or.inl ⟨hheader, rfl⟩)
  split at h
  · rename_i hheader
    cases h
    exact Or.inr (Or.inr (Or.inl ⟨hheader, rfl⟩))
  split at h
  · cases h
  split at h
  · cases h
  · rename_i hnotInterface hnotPeer hstate _ equals hequals
    obtain ⟨keyText, hkey, h⟩ := (Outcome.bind_eq_ok _ _ _).mp h
    obtain ⟨valText, hval, h⟩ := (Outcome.bind_eq_ok _ _ _).mp h
    rw [sliceFrom_of_le _ _ (indexByte_lt _ _ _ hequals)] at hval
    unfold slice at hkey
    split at hkey
    · cases hkey
      cases hval
      split at h
      · cases h
      · refine Or.inr (Or.inr (Or.inr ⟨hnotInterface, hnotPeer, hstate, _, _, ?_, h⟩))
        rw [keyValue, hequals]
        rfl
    · cases hkey

theorem parseLine_hasPeer (st : ParserState) (raw : Str) (st' : ParserState) (hst : st.HasPeer)
    (h : parseLine st raw = .ok st') : st'.HasPeer := by
  rcases parseLine_cases st raw st' h with ⟨-, rfl⟩ | ⟨-, rfl⟩ | ⟨-, rfl⟩ |
    ⟨-, -, -, key, val, -, hassign⟩
  · exact hst
  · exact fun hp => by cases hp
  · exact fun _ => rfl
  · exact assign_hasPeer st st' hst key val hassign

theorem init_hasPeer (name : Str) : (ParserState.init name).HasPeer := fun h => by cases h

theorem finishConfig_safe (st : ParserState) : (finishConfig st).Safe := by
  unfold finishConfig
  simp only
  split
  · exact Outcome.safe_err _
  · split
    · exact Outcome.safe_err _
    · exact Outcome.safe_bind _ _ (validateAWG_safe _) fun _ _ => Outcome.safe_ok _

/-- `FromWgQuick` returns a configuration or an error on exactly the texts in which no line
the parser reaches has its equals sign past the end of its lower-cased form. -/
theorem fromWgQuick_safe_iff (s name : Str) :
    (fromWgQuick s name).Safe ↔
      (tunnelNameIsValid name = true → ∀ before raw after st,
        s.splitOn 0x0A = before ++ raw :: after →
        parseLines (ParserState.init name) before = .ok st → ¬ Overruns st raw) := by
  unfold fromWgQuick
  cases hname : tunnelNameIsValid name with
  | false => simp [Outcome.Safe]
  | true =>
    simp only [Bool.not_true, Bool.false_eq_true, if_false, forall_const]
    have hreach : ∀ before st, parseLines (ParserState.init name) before = .ok st → st.HasPeer :=
      fun before st h => forEach_invariant parseLine ParserState.HasPeer before
        (fun st raw _ st' hst h => parseLine_hasPeer st raw st' hst h) _ st (init_hasPeer name) h
    constructor
    · intro hsafe before raw after st hs hbefore hover
      apply hsafe
      rw [Outcome.bind_eq_panic]
      refine Or.inl ((forEach_eq_panic _ _ _).mpr ⟨before, raw, after, st, hs, hbefore, ?_⟩)
      exact (parseLine_eq_panic st (hreach before st hbefore) raw).mpr hover
    · intro hall hp
      rcases (Outcome.bind_eq_panic _ _).mp hp with hp | ⟨st, -, hp⟩
      · obtain ⟨before, raw, after, st, hs, hbefore, hraw⟩ := (forEach_eq_panic _ _ _).mp hp
        exact hall before raw after st hs hbefore
          ((parseLine_eq_panic st (hreach before st hbefore) raw).mp hraw)
      · exact finishConfig_safe st hp

/-- A key that starts with the KELVIN SIGN: three bytes, one in lower case. -/
theorem fromWgQuick_kelvin_sign_panics :
    fromWgQuick (ascii "[Interface]\n" ++ [0xE2, 0x84, 0xAA, 0x3D]) (ascii "home") = .panic := by
  decide +kernel

end SmartAwg.Conf
