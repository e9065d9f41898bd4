import SmartAwg.GoNetMasks
import SmartAwg.GoProgramName
import SmartAwg.SmartNormalize

/-!
The values of rules that a second normalisation leaves as they are. A network is always one of them.
The name or the path of a program is one unless something is left in front of it that the second
call would trim or clean away, and a domain is one unless a dot is left at its end.
-/

namespace SmartAwg.Smart

open Go

section program

/-- What is left of a program without white space and quotes around it. -/
def unquoted (value : Str) : Str := trimByte 0x22 (trimSpace value)

theorem trimByte_of_last (c : UInt8) (s : Str) (h : s.getLast? ≠ some c) :
    trimByte c s = s.dropWhile (· == c) := by
  rw [trimByte]
  cases hrev : (s.dropWhile (· == c)).reverse with
  | nil =>
    rw [List.dropWhile_nil, List.reverse_nil]
    exact (List.reverse_eq_nil_iff.mp hrev).symm
  | cons b rest =>
    have hdrop : s.dropWhile (· == c) = rest.reverse ++ [b] := by
      rw [← List.reverse_reverse (s.dropWhile _), hrev, List.reverse_cons]
    have hlast : s.getLast? = some b := by
      have hsplit := List.takeWhile_append_dropWhile (p := (· == c)) (l := s)
      rw [← hsplit, hdrop, ← List.append_assoc, List.getLast?_concat]
    have hb : (b == c) = false := by
      rw [beq_eq_false_iff_ne]
      rintro rfl
      exact h hlast
    rw [List.dropWhile_cons_of_neg (by simp [hb]), List.reverse_cons, hdrop]

theorem trimByte_head (c : UInt8) (s : Str) : (trimByte c s).head? ≠ some c := by
  intro hhead
  have hfront : trimByte c s <+: s.dropWhile (· == c) := by
    rw [trimByte, ← List.reverse_suffix, List.reverse_reverse]
    exact List.dropWhile_suffix _
  obtain ⟨rest, hrest⟩ := hfront
  have hnot := List.head?_dropWhile_not (· == c) s
  obtain ⟨tail, htail⟩ := List.head?_eq_some_iff.mp hhead
  rw [← hrest, htail] at hnot
  simp at hnot

/-- Only what is in front of a program is trimmed. -/
theorem unquoted_program {w : Str} (h : EndsExe w) :
    EndsExe (unquoted w) ∧ (∃ front, w = front ++ unquoted w) ∧
      (unquoted w = w ↔ NoLead w ∧ w.head? ≠ some 0x22) := by
  obtain ⟨htrimmed, front, hfront⟩ := h.trimSpace
  have hlast : (trimSpace w).getLast? ≠ some 0x22 := by
    obtain ⟨a, e, hs, he⟩ := htrimmed
    obtain ⟨-, hne, hbytes⟩ := EndsExe.bytes he
    rw [hs, List.getLast?_append_of_ne_nil _ hne]
    exact fun hquote => (hbytes _ (List.mem_of_getLast? hquote)).2 rfl
  have hdrop : unquoted w = (trimSpace w).dropWhile (· == 0x22) := trimByte_of_last 0x22 _ hlast
  have hsplit := List.takeWhile_append_dropWhile (p := (· == 0x22)) (l := trimSpace w)
  rw [← hdrop] at hsplit
  refine ⟨?_, ⟨front ++ (trimSpace w).takeWhile (· == 0x22), ?_⟩, ?_⟩
  · rw [← hsplit] at htrimmed
    refine htrimmed.of_front fun b hb hplain => hplain.2 ?_
    simpa using List.mem_takeWhile_imp hb
  · rw [List.append_assoc, hsplit, ← hfront]
  · constructor
    · intro heq
      have hlen := congrArg List.length hsplit
      have hlen' := congrArg List.length hfront
      rw [heq, List.length_append] at hlen
      rw [List.length_append] at hlen'
      have hnone : front = [] := List.length_eq_zero_iff.mp (by omega)
      have hquotes : (trimSpace w).takeWhile (· == 0x22) = [] := List.length_eq_zero_iff.mp (by omega)
      rw [hnone, List.nil_append] at hfront
      refine ⟨((trimSpace_eq_self_iff w).mp hfront.symm).1, fun hquote => ?_⟩
      rw [← hfront] at hquotes
      cases w with
      | nil => cases hquote
      | cons b w =>
        rw [List.takeWhile_cons_of_pos (by simpa using hquote)] at hquotes
        cases hquotes
    · rintro ⟨hlead, hquote⟩
      rw [hdrop, trimSpace_of_trimmed w ⟨hlead, h.noTrail⟩]
      cases w with
      | nil => rfl
      | cons b w =>
        refine List.dropWhile_cons_of_neg ?_
        simpa using hquote

theorem normalizeApplication_eq_ok (value w : Str) :
    normalizeApplication value = .ok w ↔ unquoted value ≠ [] ∧
      Conf.containsAny (unquoted value) [0x0D, 0x0A] = false ∧
      (isPath (unquoted value) = true ∧ equalFold (ext (clean (unquoted value))) (ascii ".exe") = true ∧
          w = clean (unquoted value) ∨
        isPath (unquoted value) = false ∧
          w = if (ascii ".exe").isSuffixOf (toLower (base (unquoted value))) then base (unquoted value)
            else base (unquoted value) ++ ascii ".exe") := by
  unfold normalizeApplication
  rw [← unquoted]
  simp only
  constructor
  · intro h
    split at h
    · cases h
    rename_i hne
    split at h
    · cases h
    rename_i hline
    refine ⟨hne, by simpa using hline, ?_⟩
    split at h
    · rename_i hpath
      split at h
      · cases h
      · rename_i hext
        cases h
        exact Or.inl ⟨hpath, by simpa using hext, rfl⟩
    · rename_i hpath
      cases h
      exact Or.inr ⟨by simpa using hpath, rfl⟩
  · rintro ⟨hne, hline, ⟨hpath, hext, rfl⟩ | ⟨hpath, rfl⟩⟩
    · rw [if_neg hne, hline, if_neg Bool.false_ne_true, if_pos hpath, hext, if_neg (by decide)]
    · rw [if_neg hne, hline, if_neg Bool.false_ne_true, hpath, if_neg Bool.false_ne_true]

theorem containsAny_eq_false (s chars : Str) : Conf.containsAny s chars = false ↔ ∀ c ∈ s, c ∉ chars := by
  simp [Conf.containsAny]

/-- A name without separators and colons is its own base. -/
theorem base_of_name (s : Str) (hne : s ≠ []) (h : isPath s = false) : base s = s := by
  rw [isPath, containsAny_eq_false] at h
  have hsep : ∀ c ∈ s, isPathSeparator c = false := by
    intro c hc
    have := h c hc
    simp only [List.mem_cons, not_or] at this
    simp [isPathSeparator, this.1, this.2.1]
  have hreverse : (s.reverse.dropWhile isPathSeparator).reverse = s := by
    rw [List.dropWhile_eq_self_iff.mpr, List.reverse_reverse]
    intro hpos hlead
    have hmem := List.mem_reverse.mp (List.getElem_mem hpos)
    rw [hsep _ hmem] at hlead
    cases hlead
  have hvol : volumeNameLen s = 0 := by
    have hdrive : ¬(2 ≤ s.length ∧ s[1]? = some 0x3A) := by
      intro hd
      exact h _ (List.mem_of_getElem? hd.2) (by decide)
    have hhead : s.head?.any isPathSeparator = false := by
      cases s with
      | nil => rfl
      | cons c s => exact hsep c List.mem_cons_self
    rw [volumeNameLen, if_neg hdrive, hhead, if_pos (by decide)]
  rw [base, if_neg hne]
  simp only
  rw [hreverse, hvol, List.drop_zero, lastElement_of_no_separator s hsep, if_neg hne]

/-- The name of a program has its extension already. -/
theorem base_program {s : Str} (h : EndsExe s) (hpath : isPath s = false) :
    (if (ascii ".exe").isSuffixOf (toLower (base s)) then base s else base s ++ ascii ".exe") = s := by
  rw [base_of_name s h.ne_nil hpath, if_pos ((endsExe_iff s).mpr h)]

/-- A path that became shorter does not become the same again. -/
theorem unquoted_of_clean {w : Str} (h : EndsExe w) (hclean : clean (unquoted w) = w) : unquoted w = w := by
  obtain ⟨-, ⟨front, hfront⟩, htrim⟩ := unquoted_program h
  have hplain : EndsPlain (clean (unquoted w)) := by
    rw [hclean]
    exact h.endsPlain
  have hsolid : ∀ b : UInt8, w.head? = some b → Solid b → b ≠ 0x22 → unquoted w = w := by
    intro b hb hb' hquote
    refine htrim.mpr ⟨?_, fun heq => hquote (Option.some.inj (hb.symm.trans heq))⟩
    obtain ⟨rest, rfl⟩ : ∃ rest, w = b :: rest := List.head?_eq_some_iff.mp hb
    exact noLead_cons b rest hb'
  have hlength := clean_length (unquoted w) hplain
  rw [hclean] at hlength
  rcases hlength with hle | hdot | hsep
  · have hlen := congrArg List.length hfront
    rw [List.length_append] at hlen
    rw [List.length_eq_zero_iff.mp (by omega : front.length = 0), List.nil_append] at hfront
    exact hfront.symm
  · exact hsolid _ hdot (by decide) (by decide)
  · exact hsolid _ hsep (by decide) (by decide)

/-- A program that is returned as it is had nothing to trim in front of it. -/
theorem unquoted_of_fixed {w : Str} (h : EndsExe w) (hfixed : normalizeApplication w = .ok w) :
    unquoted w = w := by
  obtain ⟨-, -, ⟨-, -, hclean⟩ | ⟨hpath, hbase⟩⟩ := (normalizeApplication_eq_ok w w).mp hfixed
  · exact unquoted_of_clean h hclean.symm
  · exact (hbase.trans (base_program (unquoted_program h).1 hpath)).symm

/-- A program that the second call returns as it is: nothing in front of it is trimmed, and as a path it
is clean. -/
theorem normalizeApplication_fixed_iff {w : Str} (h : EndsExe w)
    (hline : Conf.containsAny w [0x0D, 0x0A] = false)
    (hext : isPath w = true → equalFold (ext w) (ascii ".exe") = true) :
    normalizeApplication w = .ok w ↔
      NoLead w ∧ w.head? ≠ some 0x22 ∧ (isPath w = true → clean w = w) := by
  obtain ⟨-, -, htrim⟩ := unquoted_program h
  constructor
  · intro hfixed
    have hsame := unquoted_of_fixed h hfixed
    obtain ⟨hlead, hquote⟩ := htrim.mp hsame
    refine ⟨hlead, hquote, fun hpath => ?_⟩
    obtain ⟨-, -, hcases⟩ := (normalizeApplication_eq_ok w w).mp hfixed
    rw [hsame] at hcases
    rcases hcases with ⟨-, -, hclean⟩ | ⟨hnot, -⟩
    · exact hclean.symm
    · rw [hpath] at hnot
      cases hnot
  · rintro ⟨hlead, hquote, hclean⟩
    rw [normalizeApplication_eq_ok, htrim.mpr ⟨hlead, hquote⟩]
    refine ⟨h.ne_nil, hline, ?_⟩
    cases hpath : isPath w with
    | true =>
      refine Or.inl ⟨rfl, ?_, (hclean hpath).symm⟩
      rw [hclean hpath]
      exact hext hpath
    | false => exact Or.inr ⟨rfl, (base_program h hpath).symm⟩

/-- The programs that stay: a name without white space in front of it, and a path that has neither white
space nor a quote nor something to clean in front of it when it is cleaned. -/
def ProgramStays (value : Str) : Prop :=
  if isPath (unquoted value) then
    NoLead (clean (unquoted value)) ∧ (clean (unquoted value)).head? ≠ some 0x22 ∧
      Settled (clean (unquoted value))
  else NoLead (unquoted value)

instance (value : Str) : Decidable (ProgramStays value) :=
  inferInstanceAs (Decidable (if isPath (unquoted value) then
    NoLead (clean (unquoted value)) ∧ (clean (unquoted value)).head? ≠ some 0x22 ∧
      Settled (clean (unquoted value))
  else NoLead (unquoted value)))

/-- A name has nothing that is cleaned. -/
theorem settled_of_name {s : Str} (h : isPath s = false) : Settled s := by
  have hsep : 0x5C ∉ s := fun hmem => (containsAny_eq_false _ _).mp h _ hmem (by decide)
  constructor
  · exact fun hdot => absurd (hdot.subset (by decide)) hsep
  · exact fun hdrive => absurd (hdrive.subset (by decide)) hsep

/-- The name of a program gets the extension when it has none. -/
theorem normalizeApplication_name (value w : Str) (hpath : isPath (unquoted value) = false)
    (h : normalizeApplication value = .ok w) : EndsExe w ∧ ∃ tail, w = unquoted value ++ tail ∧
      (tail = [] ∨ tail = ascii ".exe") := by
  obtain ⟨hne, -, ⟨hpath', -⟩ | ⟨-, hw⟩⟩ := (normalizeApplication_eq_ok value w).mp h
  · rw [hpath] at hpath'
    cases hpath'
  · rw [base_of_name _ hne hpath] at hw
    split at hw
    · rename_i hexe
      rw [hw]
      exact ⟨(endsExe_iff _).mp hexe, [], (List.append_nil _).symm, Or.inl rfl⟩
    · exact ⟨⟨unquoted value, _, hw, by decide +kernel⟩, _, hw, Or.inr rfl⟩

theorem normalizeApplication_endsExe (value w : Str) (h : normalizeApplication value = .ok w) : EndsExe w := by
  cases hpath : isPath (unquoted value) with
  | true =>
    obtain ⟨-, -, ⟨-, hext, rfl⟩ | ⟨hpath', -⟩⟩ := (normalizeApplication_eq_ok value w).mp h
    · exact endsExe_of_ext _ hext
    · rw [hpath] at hpath'
      cases hpath'
  | false => exact (normalizeApplication_name value w hpath h).1

theorem normalizeApplication_again (value w : Str) (h : normalizeApplication value = .ok w) :
    normalizeApplication w = .ok w ↔ ProgramStays value := by
  obtain ⟨hne, hline, hcases⟩ := (normalizeApplication_eq_ok value w).mp h
  have hexe := normalizeApplication_endsExe value w h
  rw [containsAny_eq_false] at hline
  rcases hcases with ⟨hpath, hext, rfl⟩ | ⟨hpath, -⟩
  · have hline' := clean_forall _ hexe.endsPlain hline (by decide) (by decide)
    have hclean : (isPath (clean (unquoted value)) = true →
        clean (clean (unquoted value)) = clean (unquoted value)) ↔ Settled (clean (unquoted value)) := by
      rw [clean_clean_iff _ hexe.endsPlain]
      refine ⟨fun hsettled => ?_, fun hsettled _ => hsettled⟩
      cases hagain : isPath (clean (unquoted value)) with
      | true => exact hsettled hagain
      | false => exact settled_of_name hagain
    rw [normalizeApplication_fixed_iff hexe ((containsAny_eq_false _ _).mpr hline') fun _ => hext,
      ProgramStays, if_pos hpath, hclean]
  · obtain ⟨-, tail, rfl, htail⟩ := normalizeApplication_name value w hpath h
    have hbytes : ∀ c ∈ tail, c ∉ ([0x5C, 0x2F, 0x3A] : Str) ∧ c ∉ ([0x0D, 0x0A] : Str) := by
      rcases htail with rfl | rfl
      · nofun
      · decide +kernel
    have hlead : NoLead (unquoted value ++ tail) ↔ NoLead (unquoted value) := by
      rcases htail with rfl | rfl
      · rw [List.append_nil]
      · exact noLead_append_cons _ _ 0x2E (by decide)
    have hhead : (unquoted value ++ tail).head? ≠ some 0x22 := by
      rw [List.head?_append_of_ne_nil _ hne]
      exact trimByte_head 0x22 _
    have hpath' : isPath (unquoted value ++ tail) = false := (containsAny_eq_false _ _).mpr
      (List.forall_mem_append.mpr ⟨(containsAny_eq_false _ _).mp hpath, fun c hc => (hbytes c hc).1⟩)
    have hline' := (containsAny_eq_false (unquoted value ++ tail) [0x0D, 0x0A]).mpr
      (List.forall_mem_append.mpr ⟨hline, fun c hc => (hbytes c hc).2⟩)
    rw [normalizeApplication_fixed_iff hexe hline' (by rw [hpath']; nofun), ProgramStays, hpath,
      if_neg Bool.false_ne_true, hpath', hlead]
    exact ⟨fun h => h.1, fun h => ⟨h, hhead, nofun⟩⟩

end program

section network

theorem netText_solid (number : Str) (bits : Nat) (h : Masked number bits) :
    ∀ b ∈ netText number bits, Solid b := by
  have hdigit : ∀ b : UInt8, isDigit b = true → Solid b := byte_forall _ (by decide +kernel)
  refine List.forall_mem_append.mpr ⟨?_, List.forall_mem_cons.mpr ⟨by decide, ?_⟩⟩
  · intro b hb
    exact isAddrByte_solid b (ipString_bytes number (h.family.imp_right And.left) b hb)
  · exact fun b hb => hdigit b (itoa_isDigit bits b hb)

/-- What `normalizeCIDR` returns is the text of a masked network. -/
theorem normalizeCIDR_text (value w : Str) (h : normalizeCIDR value = .ok w) :
    ∃ number bits, Masked number bits ∧ w = netText number bits := by
  unfold normalizeCIDR at h
  simp only at h
  split at h
  · rename_i ip hip
    cases h
    exact netText_of_ip ip (parseIP_some _ ip hip).1
  · split at h
    · cases h
    · rename_i ip net hnet
      cases h
      exact parseCIDR_string _ ip net hnet

theorem normalizeCIDR_again (value w : Str) (h : normalizeCIDR value = .ok w) : normalizeCIDR w = .ok w := by
  obtain ⟨number, bits, hmasked, rfl⟩ := normalizeCIDR_text value w h
  have hfamily := hmasked.family.imp_right And.left
  have hnone : parseIP (netText number bits) = none := by
    cases hip : parseIP (netText number bits) with
    | none => rfl
    | some ip =>
      have hslash := (parseIP_some _ ip hip).2 0x2F (by simp [netText])
      exact absurd hslash (by decide)
  unfold normalizeCIDR
  rw [trimSpace_of_trimmed _ (trimmed_of_solid _ (netText_solid number bits hmasked))]
  simp only [hnone, parseCIDR_netText number bits hmasked]
  rw [ipMask_as16 ⟨number, []⟩ bits hfamily, hmasked.cleared, string_masked number bits hmasked]

end network

section domain

/-- The conversion of names accepts every name of host characters. -/
structure IsTotalLookup (toASCII : Str → Option Str) : Prop extends IsLookup toASCII where
  total : ∀ s, (∀ b ∈ s, isHostChar b = true) → toASCII s = some s

/-- The host name that a domain is converted from: without the dot at its end. -/
def askedHost (value : Str) : Option Str :=
  let value := trimFront (ascii "*.") (trimSpace value)
  (urlParse (if hasScheme value then value else 0x2F :: 0x2F :: value)).map fun url =>
    trimFront (ascii "*.") (trimLast 0x2E (toLower (hostname url.1)))

/-- The domains that stay: once a dot was cut off at the end of the host name, its ASCII form does not
end with another one. -/
def DomainStays (toASCII : Str → Option Str) (value : Str) : Prop :=
  ((askedHost value).bind toASCII).bind List.getLast? ≠ some 0x2E

instance (toASCII : Str → Option Str) (value : Str) : Decidable (DomainStays toASCII value) :=
  inferInstanceAs (Decidable (((askedHost value).bind toASCII).bind List.getLast? ≠ some 0x2E))

theorem normalizeDomain_again {toASCII : Str → Option Str} (hlookup : IsTotalLookup toASCII) (value w : Str)
    (h : normalizeDomain toASCII value = .ok w) :
    normalizeDomain toASCII w = .ok w ↔ DomainStays toASCII value := by
  have hplain := normalizeDomain_plain hlookup.toIsLookup value w h
  obtain ⟨host, -, hurl, -, hd, hne, hshape⟩ := (normalizeDomain_eq_ok toASCII value w).mp h
  have hasked : DomainStays toASCII value ↔ w.getLast? ≠ some 0x2E := by
    rw [DomainStays, askedHost]
    simp only [hurl, Option.map_some, Option.bind_some, hd]
  rw [hasked]
  constructor
  · exact normalizeDomain_fixed_last hlookup.toIsLookup w
  · intro hlast
    refine (normalizeDomain_host w w hplain hne).mpr ⟨?_, hne, hshape⟩
    rw [trimLast, if_neg hlast, hlookup.total w hplain]

end domain

end SmartAwg.Smart
