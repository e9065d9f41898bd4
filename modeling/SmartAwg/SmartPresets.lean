import SmartAwg.SmartCatalog

/-!
The signed service catalog over the life of many processes: each starts with the built-in catalog
and the cached one, and asks the mirrors for a newer one.
-/

namespace SmartAwg.Smart

open Go

section model

/-- The world of the catalog: what `Env` has, `json.Unmarshal` for envelopes (which, unlike the
strict decoder, lets unknown fields pass) and SHA-256. -/
structure PresetEnv where
  env : Env
  unmarshalEnvelope : Str → Option PresetEnvelope
  sha256 : Str → Str

/-- Unmarshalling accepts what the strict decoder accepts; no two payloads have the same hash. -/
structure PresetEnv.Lawful (p : PresetEnv) : Prop where
  unmarshal : ∀ data envelope, p.env.decodeEnvelope data = .ok envelope →
    p.unmarshalEnvelope data = some envelope
  injective : Function.Injective p.sha256

def PresetEnv.clock (p : PresetEnv) (now : Int) : Env := { p.env with now := now }

inductive PresetErr where
  | plain (e : SmartErr)
  | cached (e : SmartErr)
  | mirror (url : Str) (e : SmartErr)
  | http (url : Str) (status : Nat)
  | rolledBack (url : Str) (current incoming : Nat)
  | reused (url : Str) (revision : Nat)
  deriving DecidableEq

/-- The texts of errors stand for `LastError`; none is the empty text. -/
structure PresetStatus where
  revision : Nat
  source : String
  digest : Str
  publishedAt : Option Int
  lastChecked : Option Int
  lastError : List PresetErr

/-- The cache file, and `serviceCatalogState` in the memory of the process. -/
structure Presets where
  cache : Option Str
  services : List Service
  status : PresetStatus

def builtinStatus : PresetStatus where
  revision := builtinCatalogRevision
  source := "built-in"
  digest := []
  publishedAt := none
  lastChecked := none
  lastError := []

def Presets.applyServiceCatalog (s : Presets) (services : List Service) (status : PresetStatus) :
    Presets := { s with services := services, status := status }

def Presets.recordServiceCatalogCheck (s : Presets) (checked : Int) (errs : List PresetErr) :
    Presets :=
  { s with status := { s.status with lastChecked := some checked, lastError := errs } }

def PresetEnv.presetEnvelopeDigest (p : PresetEnv) (data : Str) : Str :=
  match p.unmarshalEnvelope data with
  | none => []
  | some envelope =>
    match base64Decode envelope.payload with
    | .error _ => []
    | .ok payload => hexEncode (p.sha256 payload)

/-- What `LoadCachedServiceCatalog` makes of the content of the cache. -/
def PresetEnv.readCached (p : PresetEnv) (now : Int) (status : PresetStatus) (data : Str) :
    Except SmartErr PresetPayload :=
  match verifyPresetEnvelope (p.clock now) data with
  | .error e => .error e
  | .ok payload =>
    if payload.revision < status.revision then
      .error (.text "cached preset revision would roll the catalog back")
    else if payload.revision = status.revision ∧ status.digest ≠ [] ∧
        p.presetEnvelopeDigest data ≠ status.digest then
      .error (.text "cached preset revision was reused with different content")
    else .ok payload

def loadCachedServiceCatalog (p : PresetEnv) (now : Int) (s : Presets) : Presets :=
  match s.cache with
  | none => s
  | some data =>
    match p.readCached now s.status data with
    | .error e => s.recordServiceCatalogCheck now [.cached e]
    | .ok payload => s.applyServiceCatalog payload.services
      { revision := payload.revision
        source := "verified cache"
        digest := p.presetEnvelopeDigest data
        publishedAt := payload.publishedAt
        lastChecked := none
        lastError := [] }

/-- What came back for one URL. -/
inductive Response where
  | badRequest (e : SmartErr)
  | failed (e : SmartErr)
  | answered (status : Nat) (body : Str) (readErr : Option SmartErr)

/-- One URL of an update, with the error of writing the cache should it come to that. -/
structure Mirror where
  url : Str
  response : Response
  cacheErr : Option SmartErr

def Mirror.fetch (m : Mirror) : Except (List PresetErr) Str :=
  match m.response with
  | .badRequest e => .error [.plain e]
  | .failed e => .error [.mirror m.url e]
  | .answered status body readErr =>
    let data := body.take (presetMaxEnvelope + 1)
    let errs := readErr.toList.map PresetErr.plain ++ if status ≠ 200 then [.http m.url status] else []
    if errs ≠ [] then .error errs
    else if data.length > presetMaxEnvelope then
      .error [.plain (.text "preset response is too large")]
    else .ok data

inductive MirrorVerdict where
  | refused (errs : List PresetErr)
  | current
  | newer (data : Str) (payload : PresetPayload)

/-- What `updateServiceCatalog` makes of one answer before it writes anything. -/
def PresetEnv.judge (p : PresetEnv) (now : Int) (status : PresetStatus) (m : Mirror) : MirrorVerdict :=
  match m.fetch with
  | .error errs => .refused errs
  | .ok data =>
    match verifyPresetEnvelope (p.clock now) data with
    | .error e => .refused [.mirror m.url e]
    | .ok payload =>
      if payload.revision < status.revision then
        .refused [.rolledBack m.url status.revision payload.revision]
      else if payload.revision = status.revision then
        if status.digest ≠ [] ∧ p.presetEnvelopeDigest data ≠ status.digest then
          .refused [.reused m.url payload.revision]
        else .current
      else .newer data payload

/-- The loop over the mirrors, with the errors so far; the cache is written before the new
catalog is shown. -/
def updateServiceCatalog (p : PresetEnv) (now : Int) :
    List PresetErr → List Mirror → Presets → (Bool × List PresetErr) × Presets
  | errs, [], s =>
    let errs := if errs = [] then [.plain (.text "no preset update URL is configured")] else errs
    ((false, errs), s.recordServiceCatalogCheck now errs)
  | errs, m :: rest, s =>
    match p.judge now s.status m with
    | .refused es => updateServiceCatalog p now (errs ++ es) rest s
    | .current => ((false, []), s.recordServiceCatalogCheck now [])
    | .newer data payload =>
      match m.cacheErr with
      | some e => updateServiceCatalog p now (errs ++ [.plain e]) rest s
      | none => ((true, []), { s with cache := some data }.applyServiceCatalog payload.services
          { revision := payload.revision
            source := "signed update"
            digest := p.presetEnvelopeDigest data
            publishedAt := payload.publishedAt
            lastChecked := some now
            lastError := [] })

inductive PresetEvent where
  | start
  | update (mirrors : List Mirror)

/-- The memory of a process that has just been started. -/
def Presets.fresh (s : Presets) : Presets :=
  { s with services := builtinServiceCatalog, status := builtinStatus }

def Presets.step (p : PresetEnv) (s : Presets) : Int × PresetEvent → Presets
  | (now, .start) => loadCachedServiceCatalog p now s.fresh
  | (now, .update mirrors) => (updateServiceCatalog p now [] mirrors s).2

/-- Before the first process there is no cache file. -/
def Presets.initial : Presets := ⟨none, builtinServiceCatalog, builtinStatus⟩

def Presets.run (p : PresetEnv) (events : List (Int × PresetEvent)) : Presets :=
  events.foldl (Presets.step p) .initial

end model

section verification
variable {t : Int} {data : Str} {payload : PresetPayload}

/-- Of the environment, the checks of the services use only the name conversion. -/
theorem validatePresetDomains_congr {env env' : Env} (h : env.toASCII = env'.toASCII)
    (isSuffix : Bool) (seen values : List Str) :
    validatePresetDomains env isSuffix seen values =
      validatePresetDomains env' isSuffix seen values := by
  induction values generalizing seen with
  | nil => rfl
  | cons v rest ih => simp only [validatePresetDomains, h, ih]

theorem validateServices_congr {env env' : Env} (h : env.toASCII = env'.toASCII) (index : Nat)
    (seen : List Str) (total : Nat) (services : List Service) :
    validateServices env index seen total services =
      validateServices env' index seen total services := by
  induction services generalizing index seen total with
  | nil => rfl
  | cons s rest ih =>
    simp only [validateServices, validateService, validatePresetDomains_congr h, ih]

/-- A payload that was valid stays valid: only a publication in the future is refused. -/
theorem validatePresetPayload_later (p : PresetEnv) {t' : Int} (ht : t ≤ t')
    (h : validatePresetPayload (p.clock t) data = .ok payload) :
    validatePresetPayload (p.clock t') data = .ok payload := by
  unfold validatePresetPayload at h ⊢
  split at h
  · cases h
  rename_i hsize
  rw [if_neg hsize]
  change (match p.env.decodePayload data with | .error e => _ | .ok payload => _) = _ at h
  change (match p.env.decodePayload data with | .error e => _ | .ok payload => _) = _
  cases hd : p.env.decodePayload data with
  | error e =>
    rw [hd] at h
    cases h
  | ok decoded =>
    rw [hd] at h
    simp only at h ⊢
    split at h
    · cases h
    rename_i hschema
    split at h
    · cases h
    rename_i hrevision
    split at h
    · cases h
    rename_i htime
    have hlater : ¬(decoded.publishedAt.all fun u => u > (p.clock t').now + day) = true := by
      intro hall
      refine htime ?_
      cases hpub : decoded.publishedAt with
      | none => rfl
      | some u =>
        rw [hpub] at hall
        have hu : u > t' + day := by simpa [PresetEnv.clock] using hall
        have hu' : u > t + day := by omega
        simpa [PresetEnv.clock] using hu'
    rw [if_neg hschema, if_neg hrevision, if_neg hlater]
    rw [@validateServices_congr (p.clock t) (p.clock t') rfl] at h
    exact h

/-- The payload bytes of an envelope that verifies. -/
def SignedPayload (p : PresetEnv) (data bytes : Str) : Prop :=
  ∃ envelope signature, p.env.decodeEnvelope data = .ok envelope ∧
    base64Decode envelope.payload = .ok bytes ∧ p.env.verifySignature bytes signature = true

/-- What verification leaves behind, and that nothing but the payload depends on the time. -/
theorem verifyPresetEnvelope_ok (p : PresetEnv)
    (h : verifyPresetEnvelope (p.clock t) data = .ok payload) :
    ∃ bytes, SignedPayload p data bytes ∧ validatePresetPayload (p.clock t) bytes = .ok payload ∧
      ∀ t', verifyPresetEnvelope (p.clock t') data = validatePresetPayload (p.clock t') bytes := by
  unfold verifyPresetEnvelope at h
  split at h
  · cases h
  rename_i hsize
  split at h
  · cases h
  rename_i envelope henvelope
  split at h
  · cases h
  rename_i hschema
  split at h
  · cases h
  rename_i bytes hbytes
  split at h
  · cases h
  rename_i hlength
  split at h
  · cases h
  rename_i signature hsignature
  split at h
  · cases h
  rename_i hsigned
  split at h
  · cases h
  rename_i hvalid
  refine ⟨bytes, ⟨envelope, signature, henvelope, hbytes, by simpa [PresetEnv.clock] using hvalid⟩, h, fun t' => ?_⟩
  have henvelope' : (p.clock t').decodeEnvelope data = .ok envelope := henvelope
  have hvalid' : ¬(!(p.clock t').verifySignature bytes signature) = true := hvalid
  rw [verifyPresetEnvelope, if_neg hsize, henvelope']
  simp only [if_neg hschema, hbytes, if_neg hlength, hsignature, if_neg hsigned, if_neg hvalid']

theorem verifyPresetEnvelope_later (p : PresetEnv) {t' : Int} (ht : t ≤ t')
    (h : verifyPresetEnvelope (p.clock t) data = .ok payload) :
    verifyPresetEnvelope (p.clock t') data = .ok payload := by
  obtain ⟨bytes, -, hvalid, hclock⟩ := verifyPresetEnvelope_ok p h
  rw [hclock t']
  exact validatePresetPayload_later p ht hvalid

theorem PresetEnv.Lawful.digest_eq {p : PresetEnv} (hp : p.Lawful) {bytes : Str}
    (h : SignedPayload p data bytes) : p.presetEnvelopeDigest data = hexEncode (p.sha256 bytes) := by
  obtain ⟨envelope, -, henvelope, hbytes, -⟩ := h
  simp only [presetEnvelopeDigest, hp.unmarshal data envelope henvelope, hbytes]

end verification

section updates
variable {p : PresetEnv} {now t : Int} {s : Presets}

theorem judge_newer {status : PresetStatus} {m : Mirror} {data : Str}
    {payload : PresetPayload} (h : p.judge now status m = .newer data payload) :
    verifyPresetEnvelope (p.clock now) data = .ok payload ∧ status.revision < payload.revision := by
  unfold PresetEnv.judge at h
  split at h
  · cases h
  split at h
  · cases h
  rename_i payload' hverified
  split at h
  · cases h
  rename_i hnotOlder
  split at h
  · split at h <;> cases h
  rename_i hnotSame
  cases h
  exact ⟨hverified, by omega⟩

/-- The status once a verified catalog is shown. -/
def PresetEnv.statusOf (p : PresetEnv) (source : String) (checked : Option Int) (data : Str)
    (payload : PresetPayload) : PresetStatus where
  revision := payload.revision
  source := source
  digest := p.presetEnvelopeDigest data
  publishedAt := payload.publishedAt
  lastChecked := checked
  lastError := []

/-- An update either only notes that it has checked, or it shows a newer catalog that verifies and
is in the cache by then. -/
theorem updateServiceCatalog_cases (p : PresetEnv) (now : Int) (errs : List PresetErr)
    (mirrors : List Mirror) (s : Presets) :
    (∃ es, updateServiceCatalog p now errs mirrors s =
        ((false, es), s.recordServiceCatalogCheck now es)) ∨
      ∃ data payload, verifyPresetEnvelope (p.clock now) data = .ok payload ∧
        s.status.revision < payload.revision ∧ updateServiceCatalog p now errs mirrors s =
          ((true, []), ⟨some data, payload.services,
            p.statusOf "signed update" (some now) data payload⟩) := by
  induction mirrors generalizing errs with
  | nil => exact Or.inl ⟨_, rfl⟩
  | cons m rest ih =>
    cases hj : p.judge now s.status m with
    | refused es =>
      simp only [updateServiceCatalog, hj]
      exact ih _
    | current =>
      simp only [updateServiceCatalog, hj]
      exact Or.inl ⟨[], rfl⟩
    | newer data payload =>
      simp only [updateServiceCatalog, hj]
      cases hc : m.cacheErr with
      | some e => exact ih _
      | none =>
        obtain ⟨hverified, hnewer⟩ := judge_newer hj
        exact Or.inr ⟨data, payload, hverified, hnewer, rfl⟩

/-- Between two events memory and cache hold the same catalog: none but the built-in one, or one
that verifies and is newer than it. -/
inductive Presets.Stored (p : PresetEnv) (t : Int) (s : Presets) : Prop
  | builtin (cache : s.cache = none) (services : s.services = builtinServiceCatalog)
    (revision : s.status.revision = builtinCatalogRevision) (digest : s.status.digest = [])
  | signed (data : Str) (payload : PresetPayload) (cache : s.cache = some data)
    (verified : verifyPresetEnvelope (p.clock t) data = .ok payload)
    (newer : builtinCatalogRevision < payload.revision) (services : s.services = payload.services)
    (revision : s.status.revision = payload.revision)
    (digest : s.status.digest = p.presetEnvelopeDigest data)

/-- The second memory shows a newer catalog or the same one. -/
def Presets.Before (s s' : Presets) : Prop :=
  s.status.revision < s'.status.revision ∨ s.status.revision = s'.status.revision ∧
    s.status.digest = s'.status.digest ∧ s.services = s'.services

theorem Presets.Before.refl (s : Presets) : s.Before s := Or.inr ⟨rfl, rfl, rfl⟩

theorem Presets.Before.trans {s' s'' : Presets} (h : s.Before s') (h' : s'.Before s'') :
    s.Before s'' := by
  rcases h with h | ⟨hr, hd, hs⟩
  · rcases h' with h' | ⟨hr', -, -⟩
    · exact Or.inl (h.trans h')
    · exact Or.inl (hr' ▸ h)
  · rcases h' with h' | ⟨hr', hd', hs'⟩
    · exact Or.inl (hr ▸ h')
    · exact Or.inr ⟨hr.trans hr', hd.trans hd', hs.trans hs'⟩

theorem Presets.Before.le {s' : Presets} (h : s.Before s') :
    s.status.revision ≤ s'.status.revision := by
  rcases h with h | ⟨h, -, -⟩
  · exact h.le
  · exact h.le

theorem Presets.Stored.builtin_le (h : s.Stored p t) :
    builtinCatalogRevision ≤ s.status.revision := by
  cases h with
  | builtin _ _ revision _ => exact revision.ge
  | signed data payload _ _ newer _ revision _ => exact revision ▸ newer.le

/-- A new process shows what the last one showed: the cache still verifies. -/
theorem Presets.Stored.start (ht : t ≤ now) (h : s.Stored p t) :
    (s.step p (now, .start)).Stored p now ∧ s.Before (s.step p (now, .start)) := by
  cases h with
  | builtin cache services revision digest =>
    have hstep : s.step p (now, .start) = s.fresh := by
      simp only [Presets.step, loadCachedServiceCatalog, Presets.fresh, cache]
    rw [hstep]
    exact ⟨.builtin cache rfl rfl rfl, Or.inr ⟨revision, digest, services⟩⟩
  | signed data payload cache verified newer services revision digest =>
    have hverified := verifyPresetEnvelope_later p ht verified
    have hread : p.readCached now builtinStatus data = .ok payload := by
      have hnot : ¬payload.revision < builtinStatus.revision := Nat.not_lt.mpr newer.le
      have hno : ¬(payload.revision = builtinStatus.revision ∧ builtinStatus.digest ≠ [] ∧
          p.presetEnvelopeDigest data ≠ builtinStatus.digest) := fun hc => hc.2.1 rfl
      simp only [PresetEnv.readCached, hverified, if_neg hnot, if_neg hno]
    have hstep : s.step p (now, .start) =
        ⟨some data, payload.services, p.statusOf "verified cache" none data payload⟩ := by
      simp only [Presets.step, loadCachedServiceCatalog, Presets.fresh, cache, hread]
      rfl
    rw [hstep]
    exact ⟨.signed data payload rfl hverified newer rfl rfl rfl, Or.inr ⟨revision, digest, services⟩⟩

theorem Presets.Stored.update (ht : t ≤ now) (h : s.Stored p t)
    (mirrors : List Mirror) : (s.step p (now, .update mirrors)).Stored p now ∧
      s.Before (s.step p (now, .update mirrors)) := by
  have hstep : s.step p (now, .update mirrors) = (updateServiceCatalog p now [] mirrors s).2 := rfl
  rcases updateServiceCatalog_cases p now [] mirrors s with ⟨es, heq⟩ | ⟨data, payload, hv, hnewer, heq⟩
  · rw [hstep, heq]
    refine ⟨?_, Or.inr ⟨rfl, rfl, rfl⟩⟩
    cases h with
    | builtin cache services revision digest => exact .builtin cache services revision digest
    | signed data payload cache verified newer services revision digest =>
      exact .signed data payload cache (verifyPresetEnvelope_later p ht verified) newer services
        revision digest
  · rw [hstep, heq]
    exact ⟨.signed data payload rfl hv (h.builtin_le.trans_lt hnewer) rfl rfl rfl, Or.inl hnewer⟩

theorem Presets.Stored.step (ht : t ≤ now) (h : s.Stored p t) (event : PresetEvent) :
    (s.step p (now, event)).Stored p now ∧ s.Before (s.step p (now, event)) := by
  cases event with
  | start => exact h.start ht
  | update mirrors => exact h.update ht mirrors

end updates

section runs
variable {p : PresetEnv} {t : Int} {s : Presets}

/-- Events at later and later times, from a state that is stored at the first of these times. -/
theorem Presets.Stored.run (h : s.Stored p t)
    (events : List (Int × PresetEvent)) (hclock : (t :: events.map Prod.fst).Pairwise (· ≤ ·)) :
    (∃ t', (events.foldl (Presets.step p) s).Stored p t') ∧
      s.Before (events.foldl (Presets.step p) s) := by
  induction events generalizing s t with
  | nil => exact ⟨⟨t, h⟩, .refl s⟩
  | cons e rest ih =>
    obtain ⟨now, event⟩ := e
    obtain ⟨hfirst, hrest⟩ := List.pairwise_cons.mp hclock
    obtain ⟨hstored, hbefore⟩ := h.step (hfirst now (List.mem_cons_self ..)) event
    obtain ⟨hend, hafter⟩ := ih hstored hrest
    exact ⟨hend, hbefore.trans hafter⟩

/-- Each state of such a run comes before its end. -/
theorem Presets.Stored.run_before (h : s.Stored p t) (pre post : List (Int × PresetEvent))
    (hclock : (t :: (pre ++ post).map Prod.fst).Pairwise (· ≤ ·)) :
    (pre.foldl (Presets.step p) s).Before ((pre ++ post).foldl (Presets.step p) s) := by
  induction pre generalizing s t with
  | nil => exact (h.run post hclock).2
  | cons e rest ih =>
    obtain ⟨now, event⟩ := e
    obtain ⟨hfirst, hrest⟩ := List.pairwise_cons.mp hclock
    exact ih (h.step (hfirst now (List.mem_cons_self ..)) event).1 hrest

theorem Presets.initial_stored (t : Int) : Presets.initial.Stored p t := .builtin rfl rfl rfl rfl

/-- Nothing depends on a time before the first event. -/
theorem clock_from_first (times : List Int) (h : times.Pairwise (· ≤ ·)) :
    ∃ t, (t :: times).Pairwise (· ≤ ·) := by
  cases times with
  | nil => exact ⟨0, List.pairwise_singleton _ _⟩
  | cons t rest =>
    refine ⟨t, List.pairwise_cons.mpr ⟨fun u hu => ?_, h⟩⟩
    rcases List.mem_cons.mp hu with rfl | hu
    · exact Int.le_refl u
    · exact (List.pairwise_cons.mp h).1 u hu

/-- The memory holds the catalog of these payload bytes, which are signed and valid. -/
structure Presets.Shows (p : PresetEnv) (s : Presets) (bytes : Str) : Prop where
  signed : ∃ signature, p.env.verifySignature bytes signature = true
  valid : ∃ t payload, validatePresetPayload (p.clock t) bytes = .ok payload ∧
    s.services = payload.services ∧ s.status.revision = payload.revision
  digest : s.status.digest = hexEncode (p.sha256 bytes)

theorem Presets.Stored.shows (hp : p.Lawful) (h : s.Stored p t) :
    s.services = builtinServiceCatalog ∨ ∃ bytes, s.Shows p bytes := by
  cases h with
  | builtin _ services _ _ => exact Or.inl services
  | signed data payload _ verified _ services revision digest =>
    obtain ⟨bytes, hsigned, hvalid, -⟩ := verifyPresetEnvelope_ok p verified
    refine Or.inr ⟨bytes, ?_, ⟨t, payload, hvalid, services, revision⟩, ?_⟩
    · obtain ⟨-, signature, -, -, hsignature⟩ := hsigned
      exact ⟨signature, hsignature⟩
    · rw [digest, hp.digest_eq hsigned]

/-- The digest tells the payloads apart. -/
theorem Presets.Before.same_payload (hp : p.Lawful) {s' : Presets} (h : s.Before s')
    {bytes bytes' : Str} (hs : s.Shows p bytes) (hs' : s'.Shows p bytes')
    (hrevision : s.status.revision = s'.status.revision) : bytes = bytes' := by
  rcases h with hlt | ⟨-, hdigest, -⟩
  · exact absurd hrevision hlt.ne
  · rw [hs.digest, hs'.digest] at hdigest
    exact hp.injective (hexEncode_injective hdigest)

/-- Over any run of process starts and updates at later and later times, whatever the mirrors answer
and whichever writes of the cache fail: the revision never falls, not even over a restart; two
catalogs of one revision have the same payload; the services are the built-in ones or those of a
signed and valid payload; and an update that reports no change has only noted the check. -/
theorem catalog_never_rolls_back (p : PresetEnv) (hp : p.Lawful)
    (events : List (Int × PresetEvent)) (hclock : (events.map Prod.fst).Pairwise (· ≤ ·)) :
    (∀ pre post, events = pre ++ post →
        (Presets.run p pre).status.revision ≤ (Presets.run p events).status.revision) ∧
      (∀ pre post, events = pre ++ post → ∀ bytes bytes', (Presets.run p pre).Shows p bytes →
        (Presets.run p events).Shows p bytes' →
        (Presets.run p pre).status.revision = (Presets.run p events).status.revision →
        bytes = bytes') ∧
      ((Presets.run p events).services = builtinServiceCatalog ∨
        ∃ bytes, (Presets.run p events).Shows p bytes) ∧
      ∀ now mirrors s, (updateServiceCatalog p now [] mirrors s).1.1 = false →
        ∃ errs, (updateServiceCatalog p now [] mirrors s).2 =
          { s with status := { s.status with lastChecked := some now, lastError := errs } } := by
  obtain ⟨t, ht⟩ := clock_from_first _ hclock
  have hbefore : ∀ pre post, events = pre ++ post →
      (Presets.run p pre).Before (Presets.run p events) := by
    rintro pre post rfl
    exact (Presets.initial_stored t).run_before pre post ht
  refine ⟨fun pre post heq => (hbefore pre post heq).le, ?_, ?_, fun now mirrors s hfalse => ?_⟩
  · intro pre post heq bytes bytes' hs hs' hrevision
    exact (hbefore pre post heq).same_payload hp hs hs' hrevision
  · obtain ⟨⟨t', hstored⟩, -⟩ := (Presets.initial_stored (p := p) t).run events ht
    exact hstored.shows hp
  · rcases updateServiceCatalog_cases p now [] mirrors s with ⟨es, heq⟩ | ⟨data, payload, -, -, heq⟩
    · rw [heq]
      exact ⟨es, rfl⟩
    · rw [heq] at hfalse
      cases hfalse

/-- A catalog of the least size: each built-in service with one program. -/
def smallServices : List Service :=
  builtinServiceCatalog.map fun s =>
    { s with name := ascii "a", description := ascii "b", processNames := [ascii "c.exe"],
             domains := [], domainSuffixes := [] }

def serviceText (s : Service) : Str :=
  ascii "\x7b\"id\":\"" ++ s.id ++ ascii "\",\"name\":\"" ++ s.name ++ ascii "\",\"description\":\"" ++ s.description ++
    ascii "\",\"process_names\":[\"" ++ join s.processNames (ascii "\",\"") ++ ascii "\"]\x7d"

/-- The payload with this catalog. -/
def presetText (revision : Nat) : Str :=
  ascii "\x7b\"schema\":1,\"revision\":" ++ itoa revision ++
    ascii ",\"published_at\":\"1970-01-01T00:00:00Z\",\"services\":[" ++ join (smallServices.map serviceText) [0x2C] ++
    ascii "]\x7d"

def signedPreset (revision : Nat) : PresetEnvelope :=
  ⟨1, presetPublicKeyID, base64Encode (presetText revision), base64Encode (List.replicate 64 0)⟩

/-- The fields of its envelope, up to the end of the object. -/
def signedFields (revision : Nat) : Str :=
  ascii "\"schema\":1,\"key_id\":\"" ++ presetPublicKeyID ++ ascii "\",\"payload\":\"" ++
    (signedPreset revision).payload ++ ascii "\",\"signature\":\"" ++ (signedPreset revision).signature ++
    ascii "\"\x7d"

/-- Revisions 2 and 3 are signed; nothing else is decoded. -/
def smallPresets : PresetEnv where
  env :=
    { toASCII := some
      decodeEnvelope := fun data =>
        match [2, 3].find? fun r => data = 0x7B :: signedFields r with
        | none => .error (.text "unexpected EOF")
        | some r => .ok (signedPreset r)
      decodePayload := fun data =>
        match [2, 3].find? fun r => data = presetText r with
        | none => .error (.text "unexpected EOF")
        | some r => .ok ⟨1, r, some 0, smallServices⟩
      verifySignature := fun data signature =>
        [2, 3].any (fun r => data = presetText r) && signature == List.replicate 64 0
      serviceCatalog := []
      now := 0 }
  unmarshalEnvelope := fun data => ([2, 3].find? fun r => data = 0x7B :: signedFields r).map signedPreset
  sha256 := id

theorem smallPresets_lawful : smallPresets.Lawful where
  unmarshal := by
    intro data envelope h
    simp only [smallPresets] at h ⊢
    split at h
    · cases h
    · rename_i r hr
      rw [hr, Option.map_some]
      exact congrArg some (Except.ok.inj h)
  injective := Function.injective_id

/-- A mirror that fails and one that has revision 3; a restart; and an older catalog. -/
def smallRun : List (Int × PresetEvent) :=
  [(0, .start),
    (1, .update [⟨ascii "first", .failed (.text "timeout"), none⟩,
      ⟨ascii "second", .answered 200 (0x7B :: signedFields 3) none, none⟩]),
    (2, .start),
    (3, .update [⟨ascii "first", .answered 200 (0x7B :: signedFields 2) none, none⟩])]

theorem catalog_never_rolls_back_small :
    (Presets.run smallPresets (smallRun.take 2)).status.revision = 3 ∧
      3 ≤ (Presets.run smallPresets smallRun).status.revision := by
  have happlied : (Presets.run smallPresets (smallRun.take 2)).status.revision = 3 := by
    decide +kernel
  have hnever := (catalog_never_rolls_back smallPresets smallPresets_lawful smallRun
    (by decide +kernel)).1 (smallRun.take 2) (smallRun.drop 2) (List.take_append_drop 2 smallRun).symm
  exact ⟨happlied, happlied ▸ hnever⟩

end runs

end SmartAwg.Smart
