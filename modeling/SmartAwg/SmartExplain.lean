import SmartAwg.SmartPolicy

/-!
The explanation of a route: `ExplainRoute`, which walks the settings itself instead of the compiled
rules, and when the two agree.
-/

namespace SmartAwg.Smart

open Go FirstMatch

section explain

structure RouteQuery where
  application : Str
  domain : Str
  ip : Str

/-- A query after its checks. -/
structure PlainQuery where
  application : Str
  domain : Str
  ip : Option Str

def RouteQuery.normalized (env : Env) (q : RouteQuery) : Except SmartErr PlainQuery :=
  let application := trimByte 0x22 (trimSpace q.application)
  match if q.domain = [] then .ok [] else normalizeDomain env.toASCII q.domain with
  | .error e => .error e
  | .ok domain =>
    let ip := parseIP (trimSpace q.ip)
    if q.ip ≠ [] ∧ ip = none then .error (.text "некорректный IP-адрес")
    else if application = [] ∧ domain = [] ∧ ip = none then
      .error (.text "укажи приложение, домен или IP")
    else .ok ⟨application, domain, ip⟩

structure RouteExplanation where
  target : RouteTarget
  rule : Str
  detail : Str
  matchedRules : List Str

/-- The closure `match`: the first rule noted gives the target, the others only their names. -/
def RouteExplanation.note (e : RouteExplanation) (target : RouteTarget) (name detail : Str) :
    RouteExplanation :=
  if e.matchedRules = [] then ⟨target, name, detail, [name]⟩
  else { e with matchedRules := e.matchedRules ++ [name] }

def domainMatches (domain rule : Str) : Bool :=
  coversDomain (trimFront [0x2E] (trimLast 0x2E (toLower rule))) domain

namespace PlainQuery
variable (q : PlainQuery)

def matchesRule (r : CustomRule) : Bool :=
  match r.kind with
  | .application =>
    if isPath r.value then equalFold (clean q.application) (clean r.value)
    else equalFold (base q.application) r.value
  | .domain => q.domain ≠ [] && domainMatches q.domain r.value
  | .cidr => q.ip.any (cidrContains r.value)
  | .other _ => false

def matchesService (s : Service) : Bool :=
  s.processNames.any (equalFold (base q.application)) || s.domains.any (q.domain == ·) ||
    s.domainSuffixes.any fun suffix => q.domain ≠ [] && domainMatches q.domain suffix

end PlainQuery

/-- The notes on a list of rules, in its order. -/
def noteAll {ρ : Type} (applies : ρ → Bool) (target : ρ → RouteTarget) (name detail : ρ → Str)
    (e : RouteExplanation) (rules : List ρ) : RouteExplanation :=
  rules.foldl (fun e r => if applies r then e.note (target r) (name r) (detail r) else e) e

def regionalDetail : Str :=
  utf8 "Каталог " ++ utf8 regionalCatalogRevision ++ utf8 "; VK выше общей российской группы"

/-- What holds when no rule is noted. -/
def unmatchedRoute (n : RoutingSettings) : RouteExplanation :=
  if n.mode = Mode.selected.text then
    ⟨.direct, utf8 "Не входит в выбранное для VPN", [], []⟩
  else ⟨.vpn, utf8 "Весь интернет через VPN", [], []⟩

/-- The first local network that holds the address. -/
def noteLocal (q : PlainQuery) (e : RouteExplanation) : RouteExplanation :=
  match q.ip.bind fun ip => localCIDRs.find? (cidrContains · ip) with
  | some cidr => e.note .direct (utf8 "Локальная сеть") cidr
  | none => e

def isUpdateQuery (q : PlainQuery) : Bool :=
  q.domain = ascii "github.com" || q.domain = ascii "raw.githubusercontent.com"

/-- The services and the update endpoints of the mode that sends only them through the tunnel. -/
def noteSelected (env : Env) (n : RoutingSettings) (q : PlainQuery) (e : RouteExplanation) :
    RouteExplanation :=
  if n.mode = Mode.selected.text then
    let e := noteAll q.matchesService (fun _ => .vpn) Service.name
      (fun _ => utf8 "Подписанный или встроенный каталог сервисов") e (n.selectedServices env)
    if isUpdateQuery q then e.note .vpn (utf8 "Обновления пресетов") (utf8 "Служебное правило")
    else e
  else e

/-- The notes on normal settings. -/
def explainNormal (env : Env) (n : RoutingSettings) (q : PlainQuery) : RouteExplanation :=
  let e := noteAll q.matchesRule CustomRule.target CustomRule.name
    (fun r => utf8 "Пользовательское правило: " ++ r.value) (unmatchedRoute n) n.enabledRules
  let e := noteAll q.matchesService n.serviceTarget Service.name (fun _ => regionalDetail) e
    regionalServices
  noteSelected env n q (noteLocal q e)

def explainRoute (env : Env) (s : RoutingSettings) (q : RouteQuery) :
    Except SmartErr RouteExplanation := do
  let n ← s.normalized env
  let q ← q.normalized env
  .ok (explainNormal env n q)

end explain

section notes

/-- What an explanation says when the rules still to come say `rest`. -/
def RouteExplanation.decides (e : RouteExplanation) (rest : RouteTarget) : RouteTarget :=
  if e.matchedRules = [] then rest else e.target

theorem RouteExplanation.note_decides (e : RouteExplanation) (target : RouteTarget)
    (name detail : Str) (rest : RouteTarget) : (e.note target name detail).decides rest = e.decides target := by
  unfold RouteExplanation.note RouteExplanation.decides
  by_cases hnone : e.matchedRules = []
  · rw [if_pos hnone, if_pos hnone, if_neg (List.cons_ne_nil _ _)]
  · rw [if_neg hnone, if_neg hnone, if_neg (by simp)]

theorem noteAll_decides {ρ : Type} (applies : ρ → Bool) (target : ρ → RouteTarget)
    (name detail : ρ → Str) (e : RouteExplanation) (rules : List ρ) (rest : RouteTarget) :
    (noteAll applies target name detail e rules).decides rest =
      e.decides (firstMatch applies target rules rest) := by
  induction rules generalizing e with
  | nil => rfl
  | cons r rules ih =>
    have hrest := ih (if applies r then e.note (target r) (name r) (detail r) else e)
    rw [firstMatch_cons]
    refine Eq.trans hrest ?_
    split
    · exact RouteExplanation.note_decides e _ _ _ _
    · rfl

/-- An explanation without a note is still the first one. -/
theorem RouteExplanation.note_ne_nil (e : RouteExplanation) (target : RouteTarget)
    (name detail : Str) : (e.note target name detail).matchedRules ≠ [] := by
  unfold RouteExplanation.note
  split
  · exact List.cons_ne_nil _ _
  · simp

theorem noteAll_unmatched {ρ : Type} (applies : ρ → Bool) (target : ρ → RouteTarget)
    (name detail : ρ → Str) (e : RouteExplanation) (rules : List ρ)
    (h : (noteAll applies target name detail e rules).matchedRules = []) :
    noteAll applies target name detail e rules = e := by
  induction rules generalizing e with
  | nil => rfl
  | cons r rules ih =>
    have heq := ih _ h
    have hstep : noteAll applies target name detail e (r :: rules) =
        if applies r then e.note (target r) (name r) (detail r) else e := heq
    rw [hstep] at h ⊢
    split
    · rename_i happlies
      rw [if_pos happlies] at h
      exact absurd h (RouteExplanation.note_ne_nil e _ _ _)
    · rfl

end notes

section policy

/-- The connection a query asks about; an empty component is not known. -/
def PlainQuery.connection (q : PlainQuery) : Connection where
  process := if q.application = [] then none else some q.application
  domain := if q.domain = [] then none else some q.domain
  ip := q.ip
  protocol := none

/-- What is decided behind the regional services. -/
def RoutingSettings.lateTarget (env : Env) (n : RoutingSettings) (c : Connection) : RouteTarget :=
  if c.inNetworks localCIDRs then .direct
  else if n.mode = Mode.selected.text then
    if (n.selectedServices env).any (·.matches c) || c.hasDomain updateDomains then .vpn else .direct
  else .vpn

/-- The decision of the settings when `reads` says which domains the value of a rule covers. -/
def RoutingSettings.decision (env : Env) (n : RoutingSettings) (reads : Str → Str → Bool)
    (c : Connection) : RouteTarget :=
  firstMatch (·.matchesAs reads c) CustomRule.target n.enabledRules <|
    firstMatch (·.matches c) n.serviceTarget regionalServices (n.lateTarget env c)

/-- A value without the dots around it, as the explanation reads it. -/
def coversTrimmed (value d : Str) : Bool := domainMatches d value

variable (q : PlainQuery)

theorem empty_application (path : Str) (h : IsFile path) :
    equalFold (clean []) (clean path) = false ∧ equalFold (base []) path = false := by
  have hclean : clean [] = [0x2E] := by decide
  have hbase : base [] = [0x2E] := by decide
  rw [hclean, hbase]
  constructor
  · by_contra hfold
    exact clean_ne_dot path h (equalFold_dot _ (by simpa using hfold))
  · by_contra hfold
    exact h.ne_dot (equalFold_dot _ (by simpa using hfold))

theorem matchesRule_eq {env : Env} (r : CustomRule) (hr : r.Normal env) :
    q.matchesRule r = r.matchesAs coversTrimmed q.connection := by
  unfold PlainQuery.matchesRule CustomRule.matchesAs
  cases hkind : r.kind with
  | application =>
    obtain ⟨value, hvalue⟩ := hr.value
    rw [hkind] at hvalue
    obtain ⟨hpath, hname⟩ := empty_application r.value (normalizeApplication_isFile value _ hvalue)
    simp only [Connection.hasPath, Connection.hasName, PlainQuery.connection]
    by_cases happ : q.application = []
    · rw [happ, hpath, hname]
      simp
    · rw [if_neg happ]
      simp
  | domain =>
    simp only [PlainQuery.connection]
    by_cases hdomain : q.domain = []
    · simp [hdomain]
    · simp [hdomain, coversTrimmed]
  | cidr =>
    simp only [Connection.inNetworks, PlainQuery.connection]
    cases q.ip <;> simp
  | other text => rfl

/-- The root of a suffix is what both sides compare with. -/
theorem domainMatches_suffix (s : Service) (hs : s.Sound) (x : Str) (hx : x ∈ s.domainSuffixes)
    (d : Str) : domainMatches d x = (d == trimFront [0x2E] x || x.isSuffixOf d) := by
  obtain ⟨root, rfl, hne, hlast, hplain⟩ := hs.domainSuffixes x hx
  have hlower : toLower (0x2E :: root) = 0x2E :: root := by
    apply toLower_plain
    intro b hb
    rcases List.mem_cons.mp hb with rfl | hb
    · decide
    · exact hplain b hb
  have htrim : trimLast 0x2E (0x2E :: root) = 0x2E :: root := by
    apply if_neg
    rw [List.getLast?_cons]
    intro hdot
    cases hroot : root.getLast? with
    | none => exact hne (List.getLast?_eq_none_iff.mp hroot)
    | some b =>
      rw [hroot] at hdot hlast
      exact hlast hdot
  rw [domainMatches, hlower, htrim, show trimFront [0x2E] (0x2E :: root) = root from rfl]
  rfl

theorem matchesService_eq (s : Service) (hs : s.Sound) :
    q.matchesService s = s.matches q.connection := by
  unfold PlainQuery.matchesService Service.matches
  have hnames : s.processNames.any (equalFold (base q.application)) =
      q.connection.hasName s.processNames := by
    unfold Connection.hasName PlainQuery.connection
    by_cases happ : q.application = []
    · rw [if_pos happ, happ, Option.any_none, List.any_eq_false]
      intro name hname
      rw [(empty_application name (hs.processNames name hname)).2]
      exact Bool.false_ne_true
    · rw [if_neg happ]
      rfl
  have hdomains : (s.domains.any (q.domain == ·) ||
      s.domainSuffixes.any fun suffix => q.domain ≠ [] && domainMatches q.domain suffix) =
      q.connection.domain.any s.covers := by
    unfold PlainQuery.connection
    by_cases hdomain : q.domain = []
    · -- no domain of a sound service is empty
      rw [if_pos hdomain, hdomain, Option.any_none, Bool.or_eq_false_iff, List.any_eq_false,
        List.any_eq_false]
      refine ⟨fun d hd heq => hs.domains d hd (beq_iff_eq.mp heq).symm, fun x _ => ?_⟩
      simp
    · rw [if_neg hdomain, Option.any_some, Service.covers, List.any_beq]
      congr 1
      rw [Bool.eq_iff_iff, List.any_eq_true, List.any_eq_true]
      constructor
      · rintro ⟨x, hx, hmatch⟩
        refine ⟨x, hx, ?_⟩
        rw [← domainMatches_suffix s hs x hx]
        simpa [hdomain] using hmatch
      · rintro ⟨x, hx, hmatch⟩
        refine ⟨x, hx, ?_⟩
        rw [← domainMatches_suffix s hs x hx] at hmatch
        simpa [hdomain] using hmatch
  rw [Bool.or_assoc, hnames, hdomains]

end policy

section agreement
variable {env : Env} {config : Conf.Config} {s n : RoutingSettings} {box : BoxConfig}

theorem explainRoute_ok (env : Env) (s : RoutingSettings) (query : RouteQuery)
    (e : RouteExplanation) (h : explainRoute env s query = .ok e) :
    ∃ n q, s.normalized env = .ok n ∧ query.normalized env = .ok q ∧
      e = explainNormal env n q := by
  unfold explainRoute at h
  cases hn : s.normalized env with
  | error err =>
    rw [hn] at h
    cases h
  | ok n =>
    cases hq : query.normalized env with
    | error err =>
      rw [hn, hq] at h
      cases h
    | ok q =>
      rw [hn, hq] at h
      cases h
      exact ⟨n, q, rfl, rfl, rfl⟩

theorem noteLocal_decides (q : PlainQuery) (e : RouteExplanation) (rest : RouteTarget) :
    (noteLocal q e).decides rest =
      e.decides (if q.connection.inNetworks localCIDRs then .direct else rest) := by
  have hlocal : q.connection.inNetworks localCIDRs =
      (q.ip.bind fun ip => localCIDRs.find? (cidrContains · ip)).isSome := by
    unfold Connection.inNetworks PlainQuery.connection
    cases q.ip with
    | none => rfl
    | some ip =>
      rw [Bool.eq_iff_iff, Option.any_some, Option.bind_some, List.find?_isSome, List.any_eq_true]
  rw [hlocal, noteLocal]
  cases q.ip.bind fun ip => localCIDRs.find? (cidrContains · ip) with
  | none => rfl
  | some cidr => exact RouteExplanation.note_decides e _ _ _ rest

theorem noteLocal_unmatched (q : PlainQuery) (e : RouteExplanation)
    (h : (noteLocal q e).matchedRules = []) : noteLocal q e = e := by
  unfold noteLocal at h ⊢
  split
  · rename_i cidr hcidr
    rw [hcidr] at h
    exact absurd h (RouteExplanation.note_ne_nil e _ _ _)
  · rfl

theorem isUpdateQuery_eq (q : PlainQuery) :
    isUpdateQuery q = q.connection.hasDomain updateDomains := by
  unfold isUpdateQuery Connection.hasDomain PlainQuery.connection updateDomains
  by_cases hdomain : q.domain = []
  · have hempty : (decide (([] : Str) = ascii "github.com") ||
        decide (([] : Str) = ascii "raw.githubusercontent.com")) = false := by decide
    rw [if_pos hdomain, hdomain, hempty]
    rfl
  · rw [if_neg hdomain, Bool.eq_iff_iff]
    simp only [Bool.or_eq_true, decide_eq_true_eq, Option.any_some, List.elem_eq_mem, List.map_cons,
      List.map_nil, List.mem_cons, List.not_mem_nil, or_false]
    exact or_comm

theorem noteSelected_decides (hlookup : IsLookup env.toASCII) (n : RoutingSettings) (q : PlainQuery)
    (e : RouteExplanation) :
    (noteSelected env n q e).decides (unmatchedRoute n).target = e.decides
      (if n.mode = Mode.selected.text then
        if (n.selectedServices env).any (·.matches q.connection) ||
            q.connection.hasDomain updateDomains then .vpn else .direct
      else .vpn) := by
  unfold noteSelected unmatchedRoute
  by_cases hmode : n.mode = Mode.selected.text
  · rw [if_pos hmode, if_pos hmode, if_pos hmode, ← isUpdateQuery_eq]
    have hservices : ∀ rest, firstMatch q.matchesService (fun _ => RouteTarget.vpn)
        (n.selectedServices env) rest =
        if (n.selectedServices env).any (·.matches q.connection) then .vpn else rest := by
      intro rest
      have hany : (n.selectedServices env).any q.matchesService =
          (n.selectedServices env).any (·.matches q.connection) := by
        rw [Bool.eq_iff_iff, List.any_eq_true, List.any_eq_true]
        apply exists_congr
        intro v
        apply and_congr_right
        intro hv
        rw [matchesService_eq q v (n.selectedServices_sound hlookup v hv)]
      rw [firstMatch_of_const _ _ _ RouteTarget.vpn _ fun _ _ => rfl, hany]
    cases isUpdateQuery q with
    | true => simp only [if_true, RouteExplanation.note_decides, noteAll_decides, hservices, ite_self,
        Bool.or_true]
    | false =>
      simp only [Bool.false_eq_true, if_false, noteAll_decides, hservices, Bool.or_false]
  · rw [if_neg hmode, if_neg hmode, if_neg hmode]

theorem noteSelected_unmatched (env : Env) (n : RoutingSettings) (q : PlainQuery)
    (e : RouteExplanation) (h : (noteSelected env n q e).matchedRules = []) :
    noteSelected env n q e = e := by
  unfold noteSelected at h ⊢
  split
  · rename_i hmode
    rw [if_pos hmode] at h
    simp only at h ⊢
    split
    · rename_i hupdate
      rw [if_pos hupdate] at h
      exact absurd h (RouteExplanation.note_ne_nil _ _ _ _)
    · rename_i hupdate
      rw [if_neg hupdate] at h
      exact noteAll_unmatched _ _ _ _ e _ h
  · rfl

/-- The explanation gives the decision of the settings, domains read without their outer dots. -/
theorem explainNormal_target (hlookup : IsLookup env.toASCII) (hn : RoutingSettings.Normal env s n)
    (q : PlainQuery) :
    (explainNormal env n q).target = n.decision env coversTrimmed q.connection := by
  -- without a note the explanation is the one it started from
  have hstart : (explainNormal env n q).matchedRules = [] →
      explainNormal env n q = unmatchedRoute n := by
    intro hnone
    unfold explainNormal at hnone ⊢
    simp only at hnone ⊢
    have hselected := noteSelected_unmatched env n q _ hnone
    rw [hselected] at hnone ⊢
    have hlocal := noteLocal_unmatched q _ hnone
    rw [hlocal] at hnone ⊢
    have hregional := noteAll_unmatched _ _ _ _ _ _ hnone
    rw [hregional] at hnone ⊢
    exact noteAll_unmatched _ _ _ _ _ _ hnone
  have htarget : (explainNormal env n q).target =
      (explainNormal env n q).decides (unmatchedRoute n).target := by
    unfold RouteExplanation.decides
    split
    · rename_i hnone
      rw [hstart hnone]
    · rfl
  have hfirst : ∀ rest, (unmatchedRoute n).decides rest = rest := by
    intro rest
    unfold unmatchedRoute
    split <;> rfl
  have hcustom : ∀ rest, firstMatch q.matchesRule CustomRule.target n.enabledRules rest =
      firstMatch (·.matchesAs coversTrimmed q.connection) CustomRule.target n.enabledRules rest := by
    intro rest
    apply firstMatch_congr
    intro r hr
    exact matchesRule_eq q r (hn.rules r ((mem_enabledRules r).mp hr).1)
  have hregional : ∀ rest, firstMatch q.matchesService n.serviceTarget regionalServices rest =
      firstMatch (·.matches q.connection) n.serviceTarget regionalServices rest := by
    intro rest
    apply firstMatch_congr
    intro v hv
    exact matchesService_eq q v (regional_sound v hv)
  rw [htarget, explainNormal, noteSelected_decides hlookup, noteLocal_decides, noteAll_decides, noteAll_decides,
    hfirst, hcustom, hregional]
  rfl

/-- The compiled policy is direct where the settings are, domains read as they are written. -/
theorem verdict_direct_iff (hlookup : IsLookup env.toASCII)
    (hbuild : buildConfig env config s = .ok box) (hn : s.normalized env = .ok n) (c : Connection) :
    box.route.verdict c = .outbound .direct ↔ n.decision env coversDomain c = .direct := by
  have hnormal := RoutingSettings.normalized_ok env s n hn
  have htarget : ∀ target : RouteTarget, (target = .vpn ∨ target = .direct) →
      (Verdict.outbound target.outbound = .outbound .direct ↔ target = .direct) := by
    rintro target (rfl | rfl) <;> decide
  rw [buildConfig_verdict hbuild hn c, RoutingSettings.decision]
  let agree : Verdict → RouteTarget → Prop := fun v target => v = .outbound .direct ↔ target = .direct
  apply firstMatch_rel _ _ agree
  · intro r hr
    exact htarget _ (hnormal.rules r ((mem_enabledRules r).mp hr).1).target
  apply firstMatch_rel _ _ agree
  · intro v _
    apply htarget
    unfold RoutingSettings.serviceTarget
    split
    · exact Or.inl rfl
    · exact Or.inr rfl
  unfold RoutingSettings.lateTarget
  cases hlocal : c.inNetworks localCIDRs with
  | true =>
    rw [lateVerdict_local env n _ c hlocal, if_pos rfl]
    exact iff_of_true rfl rfl
  | false =>
    by_cases hmode : n.mode = Mode.selected.text
    · rw [lateVerdict_selected env n _ c hlocal hmode (n.selectedServices_sound hlookup),
        if_neg Bool.false_ne_true, if_pos hmode]
      split <;> decide
    · rw [lateVerdict_all env n _ c hlocal hmode, if_neg Bool.false_ne_true, if_neg hmode]
      -- rejected or tunnelled, but not direct
      split
      · decide
      · split <;> decide

theorem decision_cases (hn : RoutingSettings.Normal env s n) (reads : Str → Str → Bool)
    (c : Connection) : n.decision env reads c = .vpn ∨ n.decision env reads c = .direct := by
  let known : RouteTarget → RouteTarget → Prop := fun target _ => target = .vpn ∨ target = .direct
  apply firstMatch_rel _ _ known CustomRule.target n.enabledRules _ .vpn
  · intro r hr
    exact (hn.rules r ((mem_enabledRules r).mp hr).1).target
  apply firstMatch_rel _ _ known n.serviceTarget regionalServices _ .vpn
  · intro v _
    unfold RoutingSettings.serviceTarget
    split
    · exact Or.inl rfl
    · exact Or.inr rfl
  unfold RoutingSettings.lateTarget
  split
  · exact Or.inr rfl
  · split
    · split
      · exact Or.inl rfl
      · exact Or.inr rfl
    · exact Or.inl rfl

/-- A domain without a dot at its ends reads the same in both ways. -/
theorem coversTrimmed_eq (hlookup : IsLookup env.toASCII) (value v d : Str)
    (hvalue : normalizeDomain env.toASCII v = .ok value) (hhead : value.head? ≠ some 0x2E)
    (hlast : value.getLast? ≠ some 0x2E) : coversTrimmed value d = coversDomain value d := by
  have hfront : trimFront [0x2E] value = value := by
    apply if_neg
    intro hdot
    obtain ⟨rest, rfl⟩ := List.isPrefixOf_iff_prefix.mp hdot
    exact hhead rfl
  rw [coversTrimmed, domainMatches, toLower_plain value (normalizeDomain_plain hlookup v value hvalue),
    trimLast, if_neg hlast, hfront]

/-- Without such dots in the rules the two readings decide the same. -/
theorem decision_eq_of_no_outer_dot (hlookup : IsLookup env.toASCII)
    (hn : RoutingSettings.Normal env s n)
    (hdots : ∀ r ∈ n.enabledRules, r.kind = .domain →
      r.value.head? ≠ some 0x2E ∧ r.value.getLast? ≠ some 0x2E) (c : Connection) :
    n.decision env coversTrimmed c = n.decision env coversDomain c := by
  apply firstMatch_congr
  intro r hr
  unfold CustomRule.matchesAs
  cases hkind : r.kind with
  | domain =>
    obtain ⟨hhead, hlast⟩ := hdots r hr hkind
    obtain ⟨v, hv⟩ := (hn.rules r ((mem_enabledRules r).mp hr).1).value
    rw [hkind] at hv
    cases c.domain with
    | none => rfl
    | some d => exact coversTrimmed_eq hlookup r.value v d hv hhead hlast
  | application => rfl
  | cidr => rfl
  | other text => rfl

/-- The explanation agrees with the compiled policy exactly when the settings decide the same
whether or not the dots around the domains of custom rules count. -/
theorem explain_agrees_iff (env : Env) (hlookup : IsLookup env.toASCII) (config : Conf.Config)
    (s n : RoutingSettings) (box : BoxConfig) (query : RouteQuery) (q : PlainQuery)
    (e : RouteExplanation) (hbuild : buildConfig env config s = .ok box)
    (hexplain : explainRoute env s query = .ok e) (hn : s.normalized env = .ok n)
    (hq : query.normalized env = .ok q) :
    (e.target = .direct ↔ box.route.verdict q.connection = .outbound .direct) ↔
      n.decision env coversTrimmed q.connection = n.decision env coversDomain q.connection := by
  obtain ⟨n', q', hn', hq', rfl⟩ := explainRoute_ok env s query e hexplain
  cases hn.symm.trans hn'
  cases hq.symm.trans hq'
  have hnormal := RoutingSettings.normalized_ok env s n hn
  rw [explainNormal_target hlookup hnormal, verdict_direct_iff hlookup hbuild hn]
  -- both decisions are one of two targets
  rcases decision_cases hnormal coversTrimmed q.connection with htrimmed | htrimmed <;>
    rcases decision_cases hnormal coversDomain q.connection with hcovers | hcovers <;>
    rw [htrimmed, hcovers] <;> decide

/-- The rule `.example.com` for direct connections. -/
def dotRule : CustomRule where
  id := ascii "rule-1"
  name := ascii ".example.com"
  kind := .domain
  value := ascii ".example.com"
  target := .direct
  enabled := true

def exampleQuery : RouteQuery := ⟨[], ascii "example.com", []⟩

theorem exampleQuery_normalized :
    exampleQuery.normalized sampleEnv = .ok ⟨[], ascii "example.com", none⟩ := by
  have hdomain : normalizeDomain sampleEnv.toASCII (ascii "example.com") =
      .ok (ascii "example.com") := by
    decide +kernel
  have hne : ascii "example.com" ≠ [] := by decide
  unfold RouteQuery.normalized exampleQuery
  simp only [if_neg hne, hdomain]
  rfl

theorem explain_agrees_sample :
    ∃ box e, buildConfig sampleEnv sampleProfile (sampleSettings sampleRules) = .ok box ∧
      explainRoute sampleEnv (sampleSettings sampleRules) exampleQuery = .ok e ∧ e.target = .direct ∧
      box.route.verdict (PlainQuery.connection ⟨[], ascii "example.com", none⟩) = .outbound .direct := by
  obtain ⟨box, hbox⟩ := sample_builds
  have hn := sampleRules_normalized
  have hexplain : explainRoute sampleEnv (sampleSettings sampleRules) exampleQuery =
      .ok (explainNormal sampleEnv (sampleSettings sampleRules) ⟨[], ascii "example.com", none⟩) := by
    unfold explainRoute
    rw [hn, exampleQuery_normalized]
    rfl
  have hnormal := RoutingSettings.normalized_ok _ _ _ hn
  have htarget : (explainNormal sampleEnv (sampleSettings sampleRules)
      ⟨[], ascii "example.com", none⟩).target = .direct := by
    rw [explainNormal_target sampleEnv_isLookup hnormal]
    decide +kernel
  refine ⟨box, _, hbox, hexplain, htarget, ?_⟩
  exact ((explain_agrees_iff sampleEnv sampleEnv_isLookup sampleProfile _ _ box exampleQuery _ _ hbox hexplain hn
    exampleQuery_normalized).mpr (decision_eq_of_no_outer_dot sampleEnv_isLookup hnormal (by decide +kernel) _)).mp
    htarget

/-- The explanation ignores the dot before the domain, the compiled rules do not. -/
theorem explain_leading_dot_disagrees :
    ∃ box e, buildConfig sampleEnv sampleProfile (sampleSettings [dotRule]) = .ok box ∧
      explainRoute sampleEnv (sampleSettings [dotRule]) exampleQuery = .ok e ∧
      e.target = .direct ∧
      box.route.verdict (PlainQuery.connection ⟨[], ascii "example.com", none⟩) =
        .outbound .awgOut := by
  have hn : (sampleSettings [dotRule]).normalized sampleEnv = .ok (sampleSettings [dotRule]) := by
    decide +kernel
  have hnormal := RoutingSettings.normalized_ok _ _ _ hn
  obtain ⟨box, hbox⟩ := Outcome.exists_of_isSome
    (buildConfig sampleEnv sampleProfile (sampleSettings [dotRule])) (by decide +kernel)
  refine ⟨box, explainNormal sampleEnv (sampleSettings [dotRule]) ⟨[], ascii "example.com", none⟩,
    hbox, ?_, ?_, ?_⟩
  · unfold explainRoute
    rw [hn, exampleQuery_normalized]
    rfl
  · rw [explainNormal_target sampleEnv_isLookup hnormal]
    decide +kernel
  · rw [buildConfig_verdict hbox hn]
    decide +kernel

end agreement

end SmartAwg.Smart
