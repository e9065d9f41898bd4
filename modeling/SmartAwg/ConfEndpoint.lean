import SmartAwg.ConfValues

/-!
Which texts `parseEndpoint` accepts, and what it makes of the text `Endpoint.String` prints.
The printer brackets every host with a colon in it; the parser asks for an IPv6 address in
brackets, but only demands brackets when the first colon of the host is not its first byte.
-/

namespace SmartAwg.Conf

open Go

/-- The part of a host before its last percent sign. -/
def beforeZone (host : Str) : Str :=
  match lastIndexByte host 0x25 with
  | some i => host.take i
  | none => host

theorem beforeZone_of_not_mem (host : Str) (h : 0x25 ∉ host) : beforeZone host = host := by
  rw [beforeZone, (lastIndexByte_eq_none host 0x25).mpr h]

theorem beforeZone_append (lit zone : Str) (h : 0x25 ∉ zone) :
    beforeZone (lit ++ 0x25 :: zone) = lit := by
  rw [beforeZone, lastIndexByte_append_cons lit zone 0x25 h]
  simp

/-- The hosts for which `parseEndpoint` insists on brackets. -/
def WantsBrackets (host : Str) : Prop :=
  host.head? = some 0x5B ∨ host.getLast? = some 0x5D ∨
    (0x3A ∈ host ∧ host.head? ≠ some 0x3A)

theorem indexByte_pos_iff (host : Str) (b : UInt8) :
    (∃ c ∈ indexByte host b, 0 < c) ↔ b ∈ host ∧ host.head? ≠ some b := by
  constructor
  · rintro ⟨c, hc, hpos⟩
    obtain ⟨a, t, rfl, hb, rfl⟩ := (indexByte_eq_some host b c).mp hc
    cases a with
    | nil => cases hpos
    | cons x a =>
      refine ⟨by simp, ?_⟩
      rintro ⟨rfl⟩
      exact hb (by simp)
  · rintro ⟨hmem, hhead⟩
    obtain ⟨a, t, rfl, hb⟩ := List.eq_append_cons_of_mem hmem
    refine ⟨_, indexByte_append_cons _ _ _ hb, ?_⟩
    rcases List.eq_nil_or_concat' a with rfl | ⟨a, x, rfl⟩
    · exact absurd rfl hhead
    · simp

theorem parseIP_none_of_percent (s : Str) (h : 0x25 ∈ s) : parseIP s = none := by
  cases hp : parseIP s with
  | none => rfl
  | some ip =>
    exact absurd ((parseIP_some s ip hp).2 0x25 h) (by decide)

theorem parseIP_nil : parseIP [] = none := rfl

theorem slice_bracketed (h : Str) (k : Nat) (hk : k ≤ h.length) :
    (slice (0x5B :: (h ++ [0x5D])) 1 (k + 1) : Outcome Err Str) = .ok (h.take k) := by
  rw [slice_of_le _ _ _ (by omega) (by simp; omega)]
  simp [List.take_append_of_le_length hk]

/-- What stands in brackets is read up to its last percent sign. -/
theorem parseBracketHost_bracketed (h : Str) (hcolon : 0x3A ∈ h) :
    parseBracketHost (0x5B :: (h ++ [0x5D])) (indexByte (0x5B :: (h ++ [0x5D])) 0x3A) =
      match parseIP (beforeZone h) with
      | some _ => .ok h
      | none => .err (.parse "Brackets must contain an IPv6 address" (0x5B :: (h ++ [0x5D]))) := by
  have hpos := (indexByte_pos_iff (0x5B :: (h ++ [0x5D])) 0x3A).mpr
    ⟨by simp [hcolon], by simp⟩
  have hlen : (0x5B :: (h ++ [0x5D])).length = h.length + 2 := by simp
  have hinner : (slice (0x5B :: (h ++ [0x5D])) 1 ((0x5B :: (h ++ [0x5D])).length - 1) :
      Outcome Err Str) = .ok h := by
    rw [hlen, show h.length + 2 - 1 = h.length + 1 by omega, slice_bracketed h _ (Nat.le_refl _),
      List.take_length]
  have hfirst : (index (0x5B :: (h ++ [0x5D])) 0 : Outcome Err UInt8) = .ok 0x5B := rfl
  have hlast : (index (0x5B :: (h ++ [0x5D])) ((0x5B :: (h ++ [0x5D])).length - 1) :
      Outcome Err UInt8) = .ok 0x5D := by
    rw [index_of_lt _ _ (by simp)]
    simp
  -- Either way the literal that is looked at parses as the part before the zone does.
  obtain ⟨literal, hliteral, hparse⟩ : ∃ literal,
      (slice (0x5B :: (h ++ [0x5D])) 1 (bracketEnd (0x5B :: (h ++ [0x5D]))) : Outcome Err Str) =
        .ok literal ∧ parseIP literal = parseIP (beforeZone h) := by
    unfold bracketEnd
    by_cases hz : 0x25 ∈ h
    · obtain ⟨i, hi⟩ := Option.ne_none_iff_exists'.mp
        (mt (lastIndexByte_eq_none h 0x25).mp (not_not_intro hz))
      obtain ⟨a, z, rfl, hnz, rfl⟩ := (lastIndexByte_eq_some h 0x25 i).mp hi
      have hidx := lastIndexByte_append_cons (0x5B :: a) (z ++ [0x5D]) 0x25 (by simp [hnz])
      rw [show 0x5B :: (a ++ 0x25 :: z ++ [0x5D]) = (0x5B :: a) ++ 0x25 :: (z ++ [0x5D]) by simp,
        hidx, beforeZone_append a z hnz]
      simp only [List.length_cons]
      split
      · refine ⟨a, ?_, rfl⟩
        have := slice_bracketed (a ++ 0x25 :: z) a.length (by simp)
        simpa using this
      · have ha : a = [] := List.eq_nil_of_length_eq_zero (by omega)
        subst ha
        refine ⟨0x25 :: z, by simpa using hinner, ?_⟩
        rw [parseIP_none_of_percent _ (by simp), parseIP_nil]
    · have hnone : lastIndexByte (0x5B :: (h ++ [0x5D])) 0x25 = none :=
        (lastIndexByte_eq_none _ _).mpr (by simp [hz])
      rw [hnone, beforeZone_of_not_mem h hz]
      exact ⟨h, hinner, rfl⟩
  simp only [parseBracketHost, hfirst, hlast, Outcome.ok_bind, hliteral, hparse, hinner, hpos,
    and_true]
  cases hp : parseIP (beforeZone h) with
  | none => split <;> rfl
  | some ip =>
    have hshort : h.length > 1 := by
      have : h ≠ [0x3A] := by
        rintro rfl
        cases hp
      match h, hcolon with
      | [b], hb => simp_all
      | _ :: _ :: _, _ => simp
    rw [if_pos (by simp; omega)]
    simp [(parseIP_some _ ip hp).1]

theorem index_head (s : Str) (h : s ≠ []) :
    (index s 0 : Outcome Err UInt8) = .ok (s.head h) := by
  rw [index_of_lt s 0 (List.length_pos_iff.mpr h), List.head_eq_getElem]

theorem index_getLast (s : Str) (h : s ≠ []) :
    (index s (s.length - 1) : Outcome Err UInt8) = .ok (s.getLast h) := by
  have := List.length_pos_iff.mpr h
  rw [index_of_lt s _ (by omega), List.getLast_eq_getElem]

theorem bracketed_of_ends (host : Str) (hne : host ≠ []) (hlen : 1 < host.length)
    (hfirst : host.head hne = 0x5B) (hlast : host.getLast hne = 0x5D) :
    ∃ h, host = 0x5B :: (h ++ [0x5D]) := by
  match host, hlen with
  | b :: c :: rest, _ =>
    refine ⟨(c :: rest).dropLast, ?_⟩
    rw [List.getLast_cons (List.cons_ne_nil c rest)] at hlast
    rw [← hlast, List.dropLast_concat_getLast, ← hfirst]
    rfl

theorem parseBracketHost_eq_ok (host inner : Str) (hne : host ≠ []) :
    parseBracketHost host (indexByte host 0x3A) = .ok inner ↔
      host = 0x5B :: (inner ++ [0x5D]) ∧ 0x3A ∈ inner ∧
        (parseIP (beforeZone inner)).isSome = true := by
  constructor
  · intro h
    obtain ⟨hh, hcolon, rfl⟩ : ∃ hh, 0x3A ∈ hh ∧ host = 0x5B :: (hh ++ [0x5D]) := by
      simp only [parseBracketHost, index_head host hne, index_getLast host hne,
        Outcome.ok_bind] at h
      split at h
      · rename_i hends
        obtain ⟨hlen, hfirst, hlast, hpos⟩ := hends
        obtain ⟨hh, rfl⟩ := bracketed_of_ends host hne (by omega) hfirst hlast
        refine ⟨hh, ?_, rfl⟩
        simpa using ((indexByte_pos_iff _ _).mp hpos).1
      · cases h
    rw [parseBracketHost_bracketed hh hcolon] at h
    split at h
    · rename_i hip
      cases h
      exact ⟨rfl, hcolon, by simp [hip]⟩
    · cases h
  · rintro ⟨rfl, hcolon, hip⟩
    obtain ⟨ip, hip⟩ := Option.isSome_iff_exists.mp hip
    rw [parseBracketHost_bracketed inner hcolon, hip]

theorem wantsBrackets_iff (host : Str) (hne : host ≠ []) :
    (host.head hne = 0x5B ∨ host.getLast hne = 0x5D ∨ ∃ c ∈ indexByte host 0x3A, 0 < c) ↔
      WantsBrackets host := by
  rw [indexByte_pos_iff, WantsBrackets, List.head?_eq_some_head hne,
    List.getLast?_eq_some_getLast hne]
  simp

/-- The texts `parseEndpoint` accepts, split at their last colon. -/
theorem parseEndpoint_append_eq_ok (host port : Str) (hport : 0x3A ∉ port) (e : Endpoint) :
    parseEndpoint (host ++ 0x3A :: port) = .ok e ↔
      host ≠ [] ∧ parsePort port = .ok e.port ∧
        ((¬ WantsBrackets host ∧ e.host = host) ∨
          (host = 0x5B :: (e.host ++ [0x5D]) ∧ 0x3A ∈ e.host ∧
            (parseIP (beforeZone e.host)).isSome = true)) := by
  by_cases hne : host = []
  · subst hne
    have hidx := lastIndexByte_append_cons [] port 0x3A hport
    simp only [List.nil_append, List.length_nil] at hidx
    simp [parseEndpoint, hidx, slice, sliceFrom]
  have hlen : ¬ host.length < 1 := by
    have := List.length_pos_iff.mpr hne
    omega
  simp only [parseEndpoint, lastIndexByte_append_cons host port 0x3A hport, slice_zero_append,
    sliceFrom_append_cons, Outcome.ok_bind, if_neg hlen, index_head host hne,
    index_getLast host hne, Outcome.bind_eq_ok, Outcome.ofExcept_eq_ok]
  have hw := wantsBrackets_iff host hne
  obtain ⟨eh, ep⟩ := e
  constructor
  · rintro ⟨p, hp, h⟩
    split at h
    · obtain ⟨inner, hin, hok⟩ := (Outcome.bind_eq_ok _ _ _).mp h
      cases hok
      exact ⟨hne, hp, Or.inr ((parseBracketHost_eq_ok host _ hne).mp hin)⟩
    · rename_i hb
      cases h
      exact ⟨hne, hp, Or.inl ⟨mt hw.mpr hb, rfl⟩⟩
  · rintro ⟨-, hp, ⟨hb, heq⟩ | hin⟩
    · cases heq
      exact ⟨ep, hp, if_neg (mt hw.mp hb)⟩
    · refine ⟨ep, hp, ?_⟩
      have hb : WantsBrackets host := Or.inl (by rw [hin.1]; rfl)
      rw [if_pos (hw.mpr hb), (parseBracketHost_eq_ok host eh hne).mpr hin, Outcome.ok_bind]

theorem parseEndpoint_eq_ok_split (t : Str) (e : Endpoint) (h : parseEndpoint t = .ok e) :
    ∃ host port, t = host ++ 0x3A :: port ∧ 0x3A ∉ port := by
  unfold parseEndpoint at h
  split at h
  · cases h
  · rename_i i hi
    obtain ⟨host, port, ht, hport, -⟩ := (lastIndexByte_eq_some t 0x3A i).mp hi
    exact ⟨host, port, ht, hport⟩

theorem colon_not_mem_itoa (n : Nat) : 0x3A ∉ itoa n := fun h => by
  have := itoa_isDigit n _ h
  revert this
  decide

theorem colon_solid : Solid 0x3A := by decide

/-- The printed endpoint is clean whenever its host has no comment mark or line end in it and
does not begin with white space. -/
theorem endpoint_string_clean (e : Endpoint) (hlead : 0x3A ∈ e.host ∨ NoLead e.host)
    (hnl : 0x0A ∉ e.host) (hhash : 0x23 ∉ e.host) : CleanText e.string := by
  have hport := (itoa_plain e.port.toNat).clean
  unfold Endpoint.string
  split
  · have heq : 0x5B :: (e.host ++ 0x5D :: 0x3A :: itoa e.port.toNat) =
        (0x5B :: (e.host ++ [0x5D])) ++ 0x3A :: itoa e.port.toNat := by simp
    refine ⟨⟨noLead_cons _ _ (by decide), ?_⟩, ?_, ?_⟩
    · rw [heq]
      exact (noTrail_append_cons _ _ _ colon_solid).mpr hport.1.2
    · simpa [hnl] using hport.2.1
    · simpa [hhash] using hport.2.2
  · rename_i hcolon
    refine ⟨⟨(noLead_append_cons _ _ _ colon_solid).mpr (hlead.resolve_left hcolon),
      (noTrail_append_cons _ _ _ colon_solid).mpr hport.1.2⟩, ?_, ?_⟩
    · simpa [hnl] using hport.2.1
    · simpa [hhash] using hport.2.2

/-- Reading a printed endpoint whose host has no colon. -/
theorem parseEndpoint_string_plain (e : Endpoint) (hcolon : 0x3A ∉ e.host) (hne : e.host ≠ [])
    (hb : ¬ WantsBrackets e.host) : parseEndpoint e.string = .ok e := by
  rw [Endpoint.string, if_neg hcolon,
    parseEndpoint_append_eq_ok _ _ (colon_not_mem_itoa _)]
  exact ⟨hne, parsePort_itoa _, Or.inl ⟨hb, rfl⟩⟩

/-- Reading a printed endpoint whose host has a colon: what comes back is the same endpoint,
and that only if the part of the host before the zone is an address. -/
theorem parseEndpoint_string_colon (e e' : Endpoint) (hcolon : 0x3A ∈ e.host) :
    parseEndpoint e.string = .ok e' ↔
      e' = e ∧ (parseIP (beforeZone e.host)).isSome = true := by
  have heq : 0x5B :: (e.host ++ 0x5D :: 0x3A :: itoa e.port.toNat) =
      (0x5B :: (e.host ++ [0x5D])) ++ 0x3A :: itoa e.port.toNat := by simp
  rw [Endpoint.string, if_pos hcolon, heq,
    parseEndpoint_append_eq_ok _ _ (colon_not_mem_itoa _), parsePort_itoa]
  obtain ⟨eh, ep⟩ := e
  obtain ⟨eh', ep'⟩ := e'
  constructor
  · rintro ⟨-, hp, ⟨hb, -⟩ | ⟨hh, -, hip⟩⟩
    · exact absurd (Or.inl rfl) hb
    · simp only [List.cons.injEq, List.append_cancel_right_eq, true_and] at hh
      cases hh
      cases hp
      exact ⟨rfl, hip⟩
  · rintro ⟨heq, hip⟩
    cases heq
    exact ⟨by simp, rfl, Or.inr ⟨rfl, hcolon, hip⟩⟩

end SmartAwg.Conf
