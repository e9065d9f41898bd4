import SmartAwg.ImportSingleUse
import SmartAwg.ConfNames
import SmartAwg.ConfAccepted
import SmartAwg.GoUrl

/-!
The client side of an import link. The client has its own rules for what it takes from the service,
and the service burns a token before the client has seen the profile; so a profile that the service
hands out and the client refuses is lost.
-/

namespace SmartAwg.Import

open Go Conf

section client

/-- What the client reads from the answer. -/
structure Payload where
  version : Int
  name : Str
  config : Str
  deriving DecidableEq

/-- The JSON decoder of the client, which refuses unknown fields: the first value of a text, and
whether the text ends with it. -/
structure ClientEnv where
  decode : Str → Option (Payload × Bool)

structure ClientEnv.Lawful (env : ClientEnv) : Prop where
  payload : ∀ name config, validUtf8 name = true → validUtf8 config = true →
    env.decode (importPayload name config) = some (⟨1, name, config⟩, true)

structure ImportLink where
  issuer : Str
  claimURL : Str
  token : Str
  deriving DecidableEq

/-- A link as `ParseImportLink` makes it. -/
structure ImportLink.Usable (link : ImportLink) : Prop where
  claimURL : link.claimURL ≠ []
  parses : urlParse link.claimURL ≠ none
  token : link.token ≠ []

/-- An answer of the service; without a body, reading it fails. -/
structure Response where
  status : Nat
  body : Option Str
  deriving DecidableEq

/-- How the handler answers a call of `claim`. -/
def respond : Answer → Response
  | .content bytes => ⟨200, some bytes⟩
  | .nothing => ⟨410, some []⟩
  | .invalidTag => ⟨503, some []⟩

def responseLimit : Nat := 2 * 1024 * 1024

def hasCommands (i : Interface) : Bool :=
  i.preUp != [] || i.postUp != [] || i.preDown != [] || i.postDown != []

/-- The profile in the bytes of an answer. -/
def importProfile (env : ClientEnv) (data : Str) : Outcome String Config :=
  match env.decode data with
  | none => .err "неверный формат ответа импорта"
  | some (payload, eof) =>
    if !eof ∨ payload.version ≠ 1 ∨ payload.config.length > 1024 * 1024 ∨
        !tunnelNameIsValid payload.name then
      .err "неподдерживаемый ответ импорта"
    else do
      let config ← (fromWgQuick payload.config payload.name).mapErr fun _ =>
        "сервер выдал некорректный AWG-профиль"
      if hasCommands config.interface then
        .err "импорт по ссылке не разрешает команды PreUp/PostUp/PreDown/PostDown"
      else .ok config

/-- `claimImportLink` with the answer to its request; `none` is a request that failed. -/
def claimImportLink (env : ClientEnv) (link : ImportLink) (response : Option Response) :
    Outcome String Config :=
  if link.claimURL = [] ∨ link.token = [] then .err "некорректная ссылка импорта"
  else if urlParse link.claimURL = none then .err "не удалось создать запрос импорта"
  else
    match response with
    | none =>
      .err "не удалось получить профиль по HTTPS; соединение или сертификат не прошли проверку"
    | some resp =>
      if resp.status ≠ 200 then
        .err "сервер не выдал профиль: ссылка могла истечь или уже использована"
      else
        match resp.body with
        | none => .err "не удалось прочитать ответ импорта или он слишком большой"
        | some body =>
          let data := body.take (responseLimit + 1)
          if data.length > responseLimit then
            .err "не удалось прочитать ответ импорта или он слишком большой"
          else importProfile env data

end client

section sizes

/-- The bytes that `json.dumps` writes as a backslash and a letter. -/
def shortEscape (b : UInt8) : Bool := [0x22, 0x5C, 0x08, 0x0C, 0x0A, 0x0D, 0x09].elem b

/-- The other control characters, which it writes as `\u00` and two digits. -/
def longEscape (b : UInt8) : Bool := decide (b < 0x20) && !shortEscape b

/-- The length of a text inside a JSON string. -/
def escapedLength (s : Str) : Nat := s.length + s.countP shortEscape + 5 * s.countP longEscape

theorem jsonEscape_length (b : UInt8) :
    (jsonEscape b).length = 1 + (if shortEscape b then 1 else 0) + 5 * (if longEscape b then 1 else 0) := by
  revert b
  exact byte_forall _ (by decide +kernel)

theorem flatMap_jsonEscape_length (s : Str) : (s.flatMap jsonEscape).length = escapedLength s := by
  induction s with
  | nil => rfl
  | cons b s ih =>
    rw [List.flatMap_cons, List.length_append, ih, jsonEscape_length]
    simp only [escapedLength, List.length_cons, List.countP_cons]
    omega

/-- The length of a payload. -/
theorem importPayload_length (name config : Str) :
    (importPayload name config).length = 35 + escapedLength name + escapedLength config := by
  have hfront : (ascii "\x7b\"version\":1,\"name\":").length = 20 := rfl
  have hmiddle : (ascii ",\"config\":").length = 10 := rfl
  have hend : (ascii "\x7d").length = 1 := rfl
  simp only [importPayload, jsonString, List.length_append, List.length_cons, List.length_nil,
    flatMap_jsonEscape_length, hfront, hmiddle, hend]
  omega

/-- A valid tunnel name has nothing to escape. -/
theorem escapedLength_of_valid {name : Str} (h : tunnelNameIsValid name = true) :
    escapedLength name = name.length := by
  have hbyte : ∀ b ∈ name, shortEscape b = false ∧ longEscape b = false := by
    intro b hb
    have hall : ∀ b : UInt8, allowedNameByte b = true → shortEscape b = false ∧ longEscape b = false :=
      byte_forall _ (by decide +kernel)
    exact hall b ((tunnelNameIsValid_format h).1 b hb)
  have hshort : name.countP shortEscape = 0 := by
    apply List.countP_eq_zero.mpr
    intro b hb
    simp [(hbyte b hb).1]
  have hlong : name.countP longEscape = 0 := by
    apply List.countP_eq_zero.mpr
    intro b hb
    simp [(hbyte b hb).2]
  simp [escapedLength, hshort, hlong]

end sizes

section importing
variable {env : ClientEnv} {link : ImportLink} {name config bytes : Str}

/-- A usable link leaves the answer to decide. -/
theorem claimImportLink_content (hlink : link.Usable) :
    claimImportLink env link (some (respond (.content bytes))) =
      if bytes.length > responseLimit then
        .err "не удалось прочитать ответ импорта или он слишком большой"
      else importProfile env bytes := by
  have hempty : ¬(link.claimURL = [] ∨ link.token = []) := by
    rintro (h | h)
    · exact hlink.claimURL h
    · exact hlink.token h
  unfold claimImportLink
  rw [if_neg hempty, if_neg hlink.parses]
  simp only [respond, ne_eq, not_true_eq_false, if_false, List.length_take]
  by_cases hlong : bytes.length > responseLimit
  · rw [if_pos hlong, if_pos (by omega)]
  · rw [if_neg hlong, if_neg (by omega), List.take_of_length_le (by omega)]

/-- The profile of a payload is refused for its name and for nothing else. -/
theorem importProfile_payload (henv : env.Lawful) (hname : validUtf8 name = true)
    (hconfig : validUtf8 config = true) (hsize : config.length ≤ maxConfig) {other : Str} {c : Config}
    (hparse : fromWgQuick config other = .ok c) (hcommands : hasCommands c.interface = false) :
    importProfile env (importPayload name config) =
      if tunnelNameIsValid name then .ok (c.rename name) else .err "неподдерживаемый ответ импорта" := by
  have hfits : ¬config.length > 1024 * 1024 := Nat.not_lt.mpr hsize
  unfold importProfile
  rw [henv.payload name config hname hconfig]
  dsimp only
  cases hvalid : tunnelNameIsValid name with
  | false => rw [if_pos (by simp), if_neg (by simp)]
  | true =>
    rw [if_neg (by simp [hfits]), if_pos rfl, fromWgQuick_rename name hparse hvalid]
    change (if hasCommands c.interface then _ else _) = _
    rw [hcommands]
    rfl

end importing

section issued
variable {p : TokenEnv} {s : State}

/-- The requests of all tickets have passed the checks of `issue`. -/
def State.Checked (s : State) : Prop := ∀ i k, s.ticket i = some k → k.request.invalid = none

theorem State.Checked.prepare (h : s.Checked) (id : Nat) (k : Ticket) : (s.prepare id k).Checked := by
  intro i k' hk'
  unfold State.prepare at hk'
  split at hk'
  · rw [State.set_ticket] at hk'
    split at hk'
    · cases hk'
    · exact h i k' hk'
  · rename_i hvalid
    rw [State.set_ticket] at hk'
    split at hk'
    · cases hk'
      exact hvalid
    · exact h i k' hk'

theorem State.Checked.step (h : s.Checked) (x : Step) : (s.step p x).Checked := by
  have heffect : Effect p s (s.step p x) x.token := step_effect s x
  cases x with
  | prepare id request token nonce clock =>
    simp only [State.step]
    split
    · exact h.prepare id _
    · exact h
  | insert | revoke | take | answer =>
    -- no other step makes a ticket
    intro i k hk
    cases heffect with
    | quiet table ticket => exact h i k (ticket i k hk)
    | inserted id k' ready fresh table ticket => exact h i k ((ticket i).symm.trans hk)
    | took id token r mem digest table ticket => exact h i k ((ticket i).symm.trans hk)

theorem State.Checked.run (h : s.Checked) (steps : List Step) : (s.run p steps).Checked := by
  induction steps generalizing s with
  | nil => exact h
  | cons x steps ih => exact ih (h.step x)

theorem State.checked_initial : State.initial.Checked := fun _ _ h => (by cases h)

/-- A request that `issue` accepts has a config of at most a MiB. -/
theorem config_le_of_valid {r : Request} (h : r.invalid = none) : r.config.length ≤ maxConfig := by
  unfold Request.invalid at h
  split at h
  · cases h
  · rename_i hrange
    exact Nat.le_of_not_lt fun hlong => hrange (Or.inr hlong)

/-- The client takes the profile of a link that was claimed exactly when the name is a tunnel name and
the answer, with its escapes, has at most two MiB. The service checks neither. -/
theorem issued_link_imports_iff (p : TokenEnv) (hp : p.Lawful) (env : ClientEnv) (henv : env.Lawful)
    (steps : List Step) (hfresh : (steps.filterMap Step.token).Nodup) (i : Nat) (k : Ticket)
    (hissued : (State.initial.run p steps).issued i = some k)
    (hname : validUtf8 k.request.name = true) (hconfig : validUtf8 k.request.config = true)
    (other : Str) (c : Config) (hparse : fromWgQuick k.request.config other = .ok c)
    (hcommands : hasCommands c.interface = false) (j : Nat) (clock : Rat) (bytes : Str)
    (hclaimed : (State.initial.run p steps).Claimed p j k.token clock bytes) (link : ImportLink)
    (hlink : link.Usable) :
    (∃ c', claimImportLink env link (some (respond (.content bytes))) = .ok c' ∧
        c'.name = k.request.name) ↔
      tunnelNameIsValid k.request.name = true ∧
        35 + k.request.name.length + escapedLength k.request.config ≤ 2 * 1024 * 1024 := by
  have hsound : (State.initial.run p steps).Sound p ([] ++ steps.filterMap Step.token) :=
    State.sound_initial.run hp steps (by simpa using hfresh)
  have hvalid : k.request.invalid = none :=
    State.checked_initial.run steps i k (State.ticket_of_issued hissued)
  -- the claim found the row of this token, so its bytes are the payload of this request
  have hbytes : bytes = importPayload k.request.name k.request.config := by
    obtain ⟨i', k', hissued', htoken, -, hbytes⟩ := hsound.claimed hp hclaimed
    rw [hsound.issued_unique hissued hissued' htoken.symm]
    exact hbytes
  have hprofile := importProfile_payload henv hname hconfig (config_le_of_valid hvalid) hparse hcommands
  have hlength := importPayload_length k.request.name k.request.config
  rw [claimImportLink_content hlink, hbytes, hprofile, hlength]
  constructor
  · rintro ⟨c', hclaim, -⟩
    split at hclaim
    · cases hclaim
    split at hclaim
    · rename_i hsize htunnel
      rw [escapedLength_of_valid htunnel] at hsize
      exact ⟨htunnel, Nat.le_of_not_lt hsize⟩
    · cases hclaim
  · rintro ⟨htunnel, hsize⟩
    refine ⟨c.rename k.request.name, ?_, rfl⟩
    have hfits : ¬35 + k.request.name.length + escapedLength k.request.config > responseLimit :=
      Nat.not_lt.mpr hsize
    rw [escapedLength_of_valid htunnel, if_neg hfits, if_pos htunnel]

/-- A decoder that knows the payloads of the service. -/
def payloadClient : ClientEnv where
  decode := fun data => (readPayload data).map fun r => (⟨1, r.1, r.2⟩, true)

theorem payloadClient_lawful : payloadClient.Lawful where
  payload := fun name config _ _ => by
    simp only [payloadClient, readPayload_importPayload, Option.map_some]

def sampleLink : ImportLink where
  issuer := ascii "https://example.test"
  claimURL := ascii "https://example.test/api/pinus/import"
  token := oneToken

theorem sampleLink_usable : sampleLink.Usable where
  claimURL := by decide +kernel
  parses := by decide +kernel
  token := by decide +kernel

/-- The owner of a profile gets a link for it and opens the link at once. -/
def linkSteps (name : Str) : List Step :=
  [.prepare 0 ⟨1, 1, name, keyOnlyText, 300⟩ oneToken [] 1000, .insert 0, .take 1 oneToken, .answer 1 1001]

def linkTicket (name : Str) : Ticket := ⟨⟨1, 1, name, keyOnlyText, 300⟩, oneToken, [], 1000⟩

theorem issued_link_imports_home :
    (State.initial.run openEnv (linkSteps (ascii "home"))).issued 0 = some (linkTicket (ascii "home")) ∧
      ∃ c', claimImportLink payloadClient sampleLink
          (some (respond (.content (importPayload (ascii "home") keyOnlyText)))) = .ok c' ∧
        c'.name = ascii "home" := by
  have hissued : (State.initial.run openEnv (linkSteps (ascii "home"))).issued 0 =
      some (linkTicket (ascii "home")) := by decide +kernel
  have hclaimed : (State.initial.run openEnv (linkSteps (ascii "home"))).Claimed openEnv 1 oneToken 1001
      (importPayload (ascii "home") keyOnlyText) :=
    ⟨some ((linkTicket (ascii "home")).row openEnv), by decide +kernel, by decide +kernel⟩
  refine ⟨hissued, ?_⟩
  apply (issued_link_imports_iff openEnv openEnv_lawful payloadClient payloadClient_lawful
    (linkSteps (ascii "home")) (by decide +kernel) 0 (linkTicket (ascii "home")) hissued (by decide +kernel)
    (by decide +kernel) (ascii "home") keyOnlyConfig (by decide +kernel) (by decide +kernel) 1 1001 _ hclaimed
    sampleLink sampleLink_usable).mpr
  decide +kernel

/-- A name with a space: the service issues the link, hands out the profile and forgets it, and the
client refuses what it got. -/
theorem issued_link_lost :
    let s := State.initial.run openEnv (linkSteps (ascii "home vpn"))
    let bytes := importPayload (ascii "home vpn") keyOnlyText
    s.issued 0 = some (linkTicket (ascii "home vpn")) ∧
      fromWgQuick keyOnlyText (ascii "home") = .ok keyOnlyConfig ∧
      hasCommands keyOnlyConfig.interface = false ∧ s.Claimed openEnv 1 oneToken 1001 bytes ∧ s.table = [] ∧
      claimImportLink payloadClient sampleLink (some (respond (.content bytes))) =
        .err "неподдерживаемый ответ импорта" := by
  refine ⟨by decide +kernel, keyOnlyText_parses, by decide +kernel,
    ⟨some ((linkTicket (ascii "home vpn")).row openEnv), by decide +kernel, by decide +kernel⟩,
    by decide +kernel, by decide +kernel⟩

end issued

end SmartAwg.Import
