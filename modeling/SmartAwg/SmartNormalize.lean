import SmartAwg.ConfValidate
import SmartAwg.GoFilepath
import SmartAwg.GoNetCIDR
import SmartAwg.GoUrl

/-!
The normal forms of the values of routing rules: domains, networks and applications. The
conversion of international domain names is a parameter.
-/

namespace SmartAwg.Smart

open Go

/-- The errors of the package: a text, one with a value in it, and errors with more around them. -/
inductive SmartErr where
  | text (msg : String)
  | quoted (msg : String) (value : Str)
  | wrap (msg : String) (e : SmartErr)
  | service (id : Str) (what : String) (e : SmartErr)
  | conf (e : Conf.Err)
  deriving DecidableEq

/-- `strings.TrimPrefix`. -/
def trimFront (front s : Str) : Str := if front.isPrefixOf s then s.drop front.length else s

/-- `strings.TrimSuffix` for one byte. -/
def trimLast (c : UInt8) (s : Str) : Str := if s.getLast? = some c then s.dropLast else s

/-- `strings.Trim` for one byte. -/
def trimByte (c : UInt8) (s : Str) : Str :=
  ((s.dropWhile (· == c)).reverse.dropWhile (· == c)).reverse

/-- `strings.Contains(s, "://")`. -/
def hasScheme (s : Str) : Bool := s.tails.any fun t => (ascii "://").isPrefixOf t

def domainError : SmartErr := .text "укажи домен вроде example.com"

/-- `normalizeDomain`; `toASCII` is the lookup profile of the `idna` package. -/
def normalizeDomain (toASCII : Str → Option Str) (value : Str) : Except SmartErr Str :=
  let value := trimFront (ascii "*.") (trimSpace value)
  if value = [] then .error domainError
  else
    match urlParse (if hasScheme value then value else 0x2F :: 0x2F :: value) with
    | none => .error domainError
    | some (host, user) =>
      if hostname host = [] ∨ user then .error domainError
      else
        match toASCII (trimFront (ascii "*.") (trimLast 0x2E (toLower (hostname host)))) with
        | none => .error domainError
        | some host =>
          if host = [] ∨ host.length > 253 ∨ 0x2E ∉ host then .error domainError
          else if (parseIP host).isSome then .error (.text "для IP-адреса выбери тип «IP / CIDR»")
          else .ok host

def normalizeCIDR (value : Str) : Except SmartErr Str :=
  let value := trimSpace value
  match parseIP value with
  | some ip => .ok (ipString ip ++ if (to4 ip).isSome then ascii "/32" else ascii "/128")
  | none =>
    match parseCIDR value with
    | none => .error (.text "укажи IP или сеть, например 1.1.1.1 или 10.0.0.0/8")
    | some (ip, network) => .ok (IPNet.string { network with ip := ipMask ip network.mask })

/-- The bytes that make an application a path. -/
def isPath (value : Str) : Bool := Conf.containsAny value [0x5C, 0x2F, 0x3A]

def normalizeApplication (value : Str) : Except SmartErr Str :=
  let value := trimByte 0x22 (trimSpace value)
  if value = [] then .error (.text "выбери EXE-файл или укажи имя процесса")
  else if Conf.containsAny value [0x0D, 0x0A] then
    .error (.text "путь к приложению должен быть в одну строку")
  else if isPath value then
    if !equalFold (ext (clean value)) (ascii ".exe") then
      .error (.text "выбери исполняемый файл с расширением .exe")
    else .ok (clean value)
  else
    let value := base value
    .ok (if (ascii ".exe").isSuffixOf (toLower value) then value else value ++ ascii ".exe")

/-- The documented behaviour of the lookup profile the model relies on: the result has lower-case
letters, digits, hyphens and dots only, and such a name is its own result. -/
structure IsLookup (toASCII : Str → Option Str) : Prop where
  plain : ∀ s t, toASCII s = some t → ∀ b ∈ t, isHostChar b = true
  fixed : ∀ s t, (∀ b ∈ s, isHostChar b = true) → toASCII s = some t → t = s

/-- The host name a domain is taken from, and what is checked of its ASCII form. -/
theorem normalizeDomain_eq_ok (toASCII : Str → Option Str) (value d : Str) :
    normalizeDomain toASCII value = .ok d ↔
    ∃ host, trimFront (ascii "*.") (trimSpace value) ≠ [] ∧
      urlParse (if hasScheme (trimFront (ascii "*.") (trimSpace value))
        then trimFront (ascii "*.") (trimSpace value)
        else 0x2F :: 0x2F :: trimFront (ascii "*.") (trimSpace value)) = some (host, false) ∧
      hostname host ≠ [] ∧
      toASCII (trimFront (ascii "*.") (trimLast 0x2E (toLower (hostname host)))) = some d ∧
      d ≠ [] ∧ d.length ≤ 253 ∧ 0x2E ∈ d ∧ parseIP d = none := by
  unfold normalizeDomain
  simp only
  constructor
  · intro h
    split at h
    · cases h
    rename_i hvalue
    split at h
    · cases h
    rename_i host user hhost
    split at h
    · cases h
    rename_i huser
    split at h
    · cases h
    rename_i d' hd'
    split at h
    · cases h
    rename_i hshape
    split at h
    · cases h
    rename_i hip
    cases h
    have hfalse : user = false := by simpa using fun hu => huser (Or.inr hu)
    rw [hfalse] at hhost
    refine ⟨host, hvalue, hhost, fun hnil => huser (Or.inl hnil), hd', fun hnil => hshape (Or.inl hnil), ?_,
      ?_, by simpa using hip⟩
    · exact Nat.le_of_not_lt fun hlong => hshape (Or.inr (Or.inl hlong))
    · exact not_not.mp fun hdot => hshape (Or.inr (Or.inr hdot))
  · rintro ⟨host, hvalue, hhost, hname, hd, hne, hlen, hdot, hip⟩
    rw [if_neg hvalue, hhost]
    simp only
    rw [if_neg (by simp [hname]), hd]
    simp only
    rw [if_neg (by simp [hne, hdot]; omega), if_neg (by simp [hip])]

theorem normalizeDomain_ne_nil (toASCII : Str → Option Str) (value d : Str)
    (h : normalizeDomain toASCII value = .ok d) : d ≠ [] := by
  obtain ⟨host, -, -, -, -, hne, -⟩ := (normalizeDomain_eq_ok toASCII value d).mp h
  exact hne

section lookup
variable {toASCII : Str → Option Str} (hlookup : IsLookup toASCII)
include hlookup

theorem normalizeDomain_plain (value d : Str) (h : normalizeDomain toASCII value = .ok d) :
    ∀ b ∈ d, isHostChar b = true := by
  obtain ⟨host, -, -, -, hd, -⟩ := (normalizeDomain_eq_ok toASCII value d).mp h
  exact hlookup.plain _ _ hd

omit hlookup in
theorem trimFront_plain (s : Str) (h : ∀ b ∈ s, isHostChar b = true) :
    trimFront (ascii "*.") s = s := by
  refine if_neg fun hfront => ?_
  have hmem : 0x2A ∈ s := (List.isPrefixOf_iff_prefix.mp hfront).subset (by decide)
  exact (isHostChar_facts _ (h _ hmem)).2.2.2.2 (by decide)

omit hlookup in
theorem isHostChar_solid (b : UInt8) (h : isHostChar b = true) : Solid b := by
  have hall : ∀ n : Fin 256, isHostChar n.val.toUInt8 = true → Solid n.val.toUInt8 := by
    decide +kernel
  simpa using hall ⟨b.toNat, b.toNat_lt⟩ (by simpa using h)

omit hlookup in
theorem toLower_plain (s : Str) (h : ∀ b ∈ s, isHostChar b = true) : toLower s = s := by
  rw [toLower_ascii s fun b hb => (isHostChar_facts b (h b hb)).2.2.1]
  exact (List.map_congr_left fun b hb => (isHostChar_facts b (h b hb)).2.2.2.1).trans (List.map_id s)

omit hlookup in
theorem trimLast_plain (s : Str) (h : ∀ b ∈ s, isHostChar b = true) :
    ∀ b ∈ trimLast 0x2E s, isHostChar b = true := by
  intro b hb
  unfold trimLast at hb
  split at hb
  · exact h b (List.mem_of_mem_dropLast hb)
  · exact h b hb

omit hlookup in
/-- A name of host characters loses a dot at its end, and nothing else before it is converted. -/
theorem normalizeDomain_host (v d : Str) (hplain : ∀ b ∈ v, isHostChar b = true) (hv : v ≠ []) :
    normalizeDomain toASCII v = .ok d ↔ toASCII (trimLast 0x2E v) = some d ∧
      d ≠ [] ∧ d.length ≤ 253 ∧ 0x2E ∈ d ∧ parseIP d = none := by
  have htrim : trimFront (ascii "*.") (trimSpace v) = v := by
    rw [trimSpace_of_trimmed v (trimmed_of_solid v fun b hb => isHostChar_solid b (hplain b hb)),
      trimFront_plain v hplain]
  have hscheme : hasScheme v = false := by
    rw [hasScheme, List.any_eq_false]
    intro t ht hfront
    have hcolon : 0x3A ∈ v := ((List.mem_tails _ _).mp ht).subset
      ((List.isPrefixOf_iff_prefix.mp hfront).subset (by decide))
    exact (isHostChar_facts _ (hplain _ hcolon)).2.2.2.2 (by decide)
  have hname := hostname_plain v hplain
  have hlower : trimFront (ascii "*.") (trimLast 0x2E (toLower v)) = trimLast 0x2E v := by
    rw [toLower_plain v hplain, trimFront_plain _ (trimLast_plain v hplain)]
  rw [normalizeDomain_eq_ok, htrim, hscheme, if_neg Bool.false_ne_true, urlParse_plain v hplain]
  constructor
  · rintro ⟨host, -, hhost, -, hd, hrest⟩
    obtain ⟨rfl, -⟩ := Prod.mk.inj (Option.some.inj hhost)
    rw [hname, hlower] at hd
    exact ⟨hd, hrest⟩
  · rintro ⟨hd, hrest⟩
    refine ⟨v, hv, rfl, by rwa [hname], ?_, hrest⟩
    rw [hname, hlower]
    exact hd

/-- A domain that is its own normal form does not end with a dot. -/
theorem normalizeDomain_fixed_last (v : Str) (h : normalizeDomain toASCII v = .ok v) :
    v.getLast? ≠ some 0x2E := by
  have hplain := normalizeDomain_plain hlookup v v h
  have hne := normalizeDomain_ne_nil toASCII v v h
  have heq := hlookup.fixed _ _ (trimLast_plain v hplain)
    ((normalizeDomain_host v v hplain hne).mp h).1
  intro hdot
  -- the last dot would have been cut off
  rw [trimLast, if_pos hdot] at heq
  have hlen := congrArg List.length heq
  rw [List.length_dropLast] at hlen
  have := List.length_pos_iff.mpr hne
  omega

end lookup

section application

/-- The last element of a path is the name of a file. -/
def IsFile (path : Str) : Prop :=
  lastElement path ≠ [] ∧ lastElement path ≠ [0x2E] ∧ lastElement path ≠ [0x2E, 0x2E]

instance (path : Str) : Decidable (IsFile path) :=
  inferInstanceAs (Decidable (lastElement path ≠ [] ∧ lastElement path ≠ [0x2E] ∧
    lastElement path ≠ [0x2E, 0x2E]))

theorem IsFile.ne_dot {path : Str} (h : IsFile path) : path ≠ [0x2E] := by
  rintro rfl
  exact h.2.1 (by decide)

theorem lastElement_of_no_separator (s : Str) (h : ∀ c ∈ s, isPathSeparator c = false) :
    lastElement s = s := by
  rw [lastElement, List.takeWhile_eq_self_iff.mpr fun c hc => by simp [h c (List.mem_reverse.mp hc)],
    List.reverse_reverse]

theorem isFile_of_exe (s : Str) (hsep : ∀ c ∈ s, isPathSeparator c = false)
    (h : (ascii ".exe").isSuffixOf (toLower s) = true) : IsFile s := by
  have hnot : ∀ e ∈ [[], [0x2E], [0x2E, 0x2E]], (ascii ".exe").isSuffixOf (toLower e) = false := by
    decide +kernel
  have hne : ∀ e ∈ [[], [0x2E], [0x2E, 0x2E]], lastElement s ≠ e := by
    intro e he heq
    rw [lastElement_of_no_separator s hsep] at heq
    rw [heq, hnot e he] at h
    cases h
  exact ⟨hne _ (by simp), hne _ (by simp), hne _ (by simp)⟩

theorem base_cases (path : Str) (hne : path ≠ []) :
    base path = [0x5C] ∨ base path ≠ [] ∧ ∀ c ∈ base path, isPathSeparator c = false := by
  rw [base, if_neg hne]
  simp only
  split
  · exact Or.inl rfl
  · rename_i hlast
    exact Or.inr ⟨hlast, (lastElement_cases _).2⟩

theorem isFile_append_exe (s : Str) (hne : s ≠ []) (hsep : ∀ c ∈ s, isPathSeparator c = false) :
    IsFile (s ++ ascii ".exe") := by
  have hexe : ∀ c ∈ ascii ".exe", isPathSeparator c = false := by decide +kernel
  have hlast : lastElement (s ++ ascii ".exe") = s ++ ascii ".exe" :=
    lastElement_of_no_separator _ fun c hc => (List.mem_append.mp hc).elim (hsep c) (hexe c)
  have hlen : 5 ≤ (s ++ ascii ".exe").length := by
    have := List.length_pos_iff.mpr hne
    rw [List.length_append, show (ascii ".exe").length = 4 from by decide]
    omega
  have hshort : ∀ e : Str, e.length < 5 → s ++ ascii ".exe" ≠ e := by
    rintro e he rfl
    omega
  rw [IsFile, hlast]
  exact ⟨hshort _ (by decide), hshort _ (by decide), hshort _ (by decide)⟩

/-- An application of a rule names a file, so it is never the empty path. -/
theorem normalizeApplication_isFile (value w : Str) (h : normalizeApplication value = .ok w) :
    IsFile w := by
  unfold normalizeApplication at h
  simp only at h
  split at h
  · cases h
  split at h
  · cases h
  split at h
  · split at h
    · cases h
    · rename_i hext
      cases h
      exact lastElement_of_exe _ (by simpa using hext)
  · rename_i hne _ _
    cases h
    split
    · rename_i hexe
      rcases base_cases _ hne with hroot | ⟨-, hsep⟩
      · rw [hroot] at hexe
        exact absurd hexe (by decide +kernel)
      · exact isFile_of_exe _ hsep hexe
    · rcases base_cases _ hne with hroot | ⟨hnil, hsep⟩
      · rw [hroot]
        decide
      · exact isFile_append_exe _ hnil hsep

end application

end SmartAwg.Smart
