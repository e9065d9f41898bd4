import Mathlib.Logic.Function.Basic
import SmartAwg.GoGob

/-!
Notifications from the manager to its clients. Each client has a bounded queue that drops its oldest
event when it is full, a goroutine that writes the events to a pipe, and, at the other end, a loop that
reads the type of a notification and then its arguments, one by one.
-/

namespace SmartAwg.Events

open Go

section notifications

structure TunnelName where
  text : Str
  nonempty : text ≠ []
  deriving DecidableEq

/-- The states are the numbers of `TunnelState` and `UpdateState`. -/
inductive Notification where
  | tunnelChange (tunnel : TunnelName) (state globalState : Int64) (err : Str)
  | tunnelsChange
  | managerStopping
  | updateFound (state : UInt32)
  | updateProgress (activity : Str) (downloaded total : UInt64) (err : Str) (complete : Bool)
  deriving DecidableEq

/-- The number of the `NotificationType`. -/
def Notification.type : Notification → Int64
  | .tunnelChange .. => 0
  | .tunnelsChange => 1
  | .managerStopping => 2
  | .updateFound _ => 3
  | .updateProgress .. => 4

/-- The arguments as the encoder writes them. -/
def Notification.args : Notification → List (Option Str)
  | .tunnelChange tunnel state globalState err =>
    [encodeString tunnel.text, encodeInt state, encodeInt globalState, encodeString err]
  | .tunnelsChange => []
  | .managerStopping => []
  | .updateFound state => [encodeUint32 state]
  | .updateProgress activity downloaded total err complete =>
    [encodeString activity, encodeUint64 downloaded, encodeUint64 total, encodeString err,
      encodeBool complete]

/-- The calls of `Encode`, up to the first that fails. -/
def encodeAll : List (Option Str) → Option Str
  | [] => some []
  | none :: _ => none
  | some text :: rest => (encodeAll rest).map (text ++ ·)

/-- The bytes that `notifyAll` makes for an event. -/
def encodeEvent (n : Notification) : Option Str := encodeAll (encodeInt n.type :: n.args)

/-- An event with its bytes. -/
structure Frame where
  note : Notification
  bytes : Str
  encoded : encodeEvent note = some bytes

theorem encodeAll_cons {x : Option Str} {rest : List (Option Str)} {text : Str}
    (h : encodeAll (x :: rest) = some text) :
    ∃ a b, x = some a ∧ encodeAll rest = some b ∧ text = a ++ b := by
  cases x with
  | none => cases h
  | some a =>
    obtain ⟨b, hb, rfl⟩ := Option.map_eq_some_iff.mp h
    exact ⟨a, b, rfl, hb, rfl⟩

end notifications

section client

def readTunnelChange : Reader UInt8 Notification := readString.andThen fun tunnel =>
  if h : tunnel ≠ [] then
    readInt.andThen fun state => readInt.andThen fun globalState => readString.andThen fun err =>
      Reader.pure (.tunnelChange ⟨tunnel, h⟩ state globalState err)
  else fun s => (none, s)

def readUpdateFound : Reader UInt8 Notification := readUint32.andThen fun state => Reader.pure (.updateFound state)

def readUpdateProgress : Reader UInt8 Notification := readString.andThen fun activity =>
  readUint64.andThen fun downloaded => readUint64.andThen fun total => readString.andThen fun err =>
    readBool.andThen fun complete => Reader.pure (.updateProgress activity downloaded total err complete)

/-- The `switch` over the type: the arguments of a notification. -/
def readArgs (t : Int64) : Reader UInt8 Notification :=
  if t = 0 then readTunnelChange
  else if t = 1 then Reader.pure .tunnelsChange
  else if t = 2 then Reader.pure .managerStopping
  else if t = 3 then readUpdateFound
  else if t = 4 then readUpdateProgress
  else fun s => (none, s)

/-- The notifications that the loop of the client decodes. It ends when no type can be read; when an
argument cannot be read, it goes on with the next type. -/
def clientLoop : Nat → Str → List Notification
  | 0, _ => []
  | fuel + 1, s =>
    match readInt s with
    | (none, _) => []
    | (some t, s) =>
      match readArgs t s with
      | (none, s) => clientLoop fuel s
      | (some n, s) => n :: clientLoop fuel s

/-- The arguments of a notification are read as they were written. -/
theorem reads_args {n : Notification} {text : Str} (h : encodeAll n.args = some text) :
    Reader.Reads (readArgs n.type) text n := by
  cases n with
  | tunnelChange tunnel state globalState err =>
    obtain ⟨a, _, ha, hrest1, rfl⟩ := encodeAll_cons h
    obtain ⟨b, _, hb, hrest2, rfl⟩ := encodeAll_cons hrest1
    obtain ⟨c, _, hc, hrest3, rfl⟩ := encodeAll_cons hrest2
    obtain ⟨d, _, hd, hrest4, rfl⟩ := encodeAll_cons hrest3
    cases hrest4
    refine Reader.Reads.andThen (reads_string ha) ?_
    rw [dif_pos tunnel.nonempty]
    exact (reads_int hb).andThen ((reads_int hc).andThen ((reads_string hd).andThen (Reader.Reads.pure _)))
  | tunnelsChange =>
    cases h
    exact Reader.Reads.pure _
  | managerStopping =>
    cases h
    exact Reader.Reads.pure _
  | updateFound state =>
    obtain ⟨a, _, ha, hrest1, rfl⟩ := encodeAll_cons h
    cases hrest1
    exact (reads_uint32 ha).andThen (Reader.Reads.pure _)
  | updateProgress activity downloaded total err complete =>
    obtain ⟨a, _, ha, hrest1, rfl⟩ := encodeAll_cons h
    obtain ⟨b, _, hb, hrest2, rfl⟩ := encodeAll_cons hrest1
    obtain ⟨c, _, hc, hrest3, rfl⟩ := encodeAll_cons hrest2
    obtain ⟨d, _, hd, hrest4, rfl⟩ := encodeAll_cons hrest3
    obtain ⟨e, _, he, hrest5, rfl⟩ := encodeAll_cons hrest4
    cases hrest5
    exact (reads_string ha).andThen ((reads_uint64 hb).andThen ((reads_uint64 hc).andThen
      ((reads_string hd).andThen ((reads_bool he).andThen (Reader.Reads.pure _)))))

/-- The bytes of an event: those of its type, and those of its arguments. -/
theorem Frame.parts (f : Frame) : ∃ a b, f.bytes = a ++ b ∧ Reader.Reads readInt a f.note.type ∧
    Reader.Reads (readArgs f.note.type) b f.note := by
  obtain ⟨a, b, ha, hb, heq⟩ := encodeAll_cons f.encoded
  exact ⟨a, b, heq, reads_int ha, reads_args hb⟩

/-- What a failed write can leave in the pipe: nothing, or a part of an event. -/
def IsCut (tail : Str) : Prop := tail = [] ∨ ∃ f : Frame, tail <+: f.bytes ∧ tail ≠ f.bytes

theorem clientLoop_nil (fuel : Nat) : clientLoop fuel [] = [] := by
  cases fuel with
  | zero => rfl
  | succ fuel => rfl

theorem clientLoop_cut (fuel : Nat) {tail : Str} (h : IsCut tail) : clientLoop fuel tail = [] := by
  rcases h with rfl | ⟨f, hp, hne⟩
  · exact clientLoop_nil fuel
  cases fuel with
  | zero => rfl
  | succ fuel =>
    obtain ⟨a, b, heq, htype, hargs⟩ := f.parts
    rw [heq] at hp hne
    rcases Reader.cut_append hp hne with ⟨ha, hna⟩ | ⟨q, rfl, hq, hnq⟩
    · rw [clientLoop, htype.cut tail ha hna]
    · -- the type is there, and the end of the stream comes before the last argument
      rw [clientLoop, htype.whole]
      simp only [hargs.cut q hq hnq, clientLoop_nil]

/-- The client decodes the events that are in the stream, and nothing from a part of one. -/
theorem clientLoop_frames (frames : List Frame) {tail : Str} (htail : IsCut tail) {fuel : Nat}
    (hfuel : (frames.flatMap Frame.bytes ++ tail).length < fuel) :
    clientLoop fuel (frames.flatMap Frame.bytes ++ tail) = frames.map Frame.note := by
  induction frames generalizing fuel with
  | nil => exact clientLoop_cut fuel htail
  | cons f frames ih =>
    obtain ⟨a, b, heq, htype, hargs⟩ := f.parts
    have hpos : 0 < a.length := by
      apply List.length_pos_of_ne_nil
      rintro rfl
      have hnothing := htype.whole []
      cases hnothing
    cases fuel with
    | zero => exact absurd hfuel (Nat.not_lt_zero _)
    | succ fuel =>
      rw [List.flatMap_cons, heq, List.append_assoc, List.append_assoc] at hfuel ⊢
      rw [clientLoop, htype.whole]
      simp only [hargs.whole, List.map_cons]
      congr 1
      apply ih
      simp only [List.length_append] at hfuel ⊢
      omega

end client

section model

/-- Where the goroutine of a client stands. -/
inductive Pump where
  | waiting
  | writing (f : Frame)
  | ended

/-- The queue, the goroutine and the pipe of a client. For the statements: the events given to
`queueLatestEvent`, those put into the queue, and those of which the pipe has all bytes. -/
structure Client where
  queue : List Frame
  pump : Pump
  stream : Str
  handed : List Frame
  enqueued : List Frame
  written : List Frame

/-- The three steps of `queueLatestEvent`, each of which does not block. -/
inductive Stage where
  | first
  | drop
  | second
  deriving DecidableEq

/-- Who holds `notificationOrder`: a call for an event that stands at a client, with others to come. -/
inductive Sender where
  | free
  | queueing (f : Frame) (client : Nat) (stage : Stage) (rest : List Nat)

structure State where
  clients : Nat → Client
  sender : Sender

def Client.initial : Client := ⟨[], .waiting, [], [], [], []⟩

def State.initial : State := ⟨fun _ => .initial, .free⟩

namespace Client
variable (c : Client)

def hand (f : Frame) : Client := { c with handed := c.handed ++ [f] }

def enqueue (f : Frame) : Client := { c with queue := c.queue ++ [f], enqueued := c.enqueued ++ [f] }

def dropOldest : Client := { c with queue := c.queue.tail }

/-- The goroutine takes an event from the queue. -/
def take : Client :=
  match c.pump, c.queue with
  | .waiting, f :: rest => { c with queue := rest, pump := .writing f }
  | _, _ => c

/-- A write that succeeds. -/
def write : Client :=
  match c.pump with
  | .writing f => { c with pump := .waiting, stream := c.stream ++ f.bytes, written := c.written ++ [f] }
  | _ => c

/-- A write that fails after `k` bytes; the pipe is closed. -/
def fail (k : Nat) : Client :=
  match c.pump with
  | .writing f =>
    if f.bytes.length ≤ k then
      { c with pump := .ended, stream := c.stream ++ f.bytes, written := c.written ++ [f] }
    else { c with pump := .ended, stream := c.stream ++ f.bytes.take k }
  | _ => c

/-- The service of the client ends, or its pipe is gone. -/
def quit : Client := { c with pump := .ended }

end Client

/-- Any call of `notifyAll`, for the clients that it comes to, in any order; a step of the call that
holds the lock; or a step of the goroutine of a client. -/
inductive Step where
  | notify (n : Notification) (targets : List Nat)
  | advance
  | take (client : Nat)
  | write (client : Nat)
  | fail (client : Nat) (k : Nat)
  | quit (client : Nat)

def State.update (s : State) (client : Nat) (g : Client → Client) : State :=
  { s with clients := Function.update s.clients client (g (s.clients client)) }

/-- The call goes on to the next client, or ends. -/
def State.goOn (s : State) (f : Frame) : List Nat → State
  | [] => { s with sender := .free }
  | client :: rest => { s.update client (·.hand f) with sender := .queueing f client .first rest }

def State.advance (capacity : Nat) (s : State) : State :=
  match s.sender with
  | .free => s
  | .queueing f client .first rest =>
    if (s.clients client).queue.length < capacity then (s.update client (·.enqueue f)).goOn f rest
    else { s with sender := .queueing f client .drop rest }
  | .queueing f client .drop rest =>
    { s.update client Client.dropOldest with sender := .queueing f client .second rest }
  | .queueing f client .second rest =>
    if (s.clients client).queue.length < capacity then (s.update client (·.enqueue f)).goOn f rest
    else s.goOn f rest

def State.notify (s : State) (n : Notification) (targets : List Nat) : State :=
  match s.sender with
  | .free =>
    match h : encodeEvent n with
    | some bytes => s.goOn ⟨n, bytes, h⟩ targets
    | none => s
  | .queueing .. => s

def State.step (capacity : Nat) (s : State) : Step → State
  | .notify n targets => s.notify n targets
  | .advance => s.advance capacity
  | .take client => s.update client Client.take
  | .write client => s.update client Client.write
  | .fail client k => s.update client (·.fail k)
  | .quit client => s.update client Client.quit

def State.run (capacity : Nat) (s : State) (steps : List Step) : State := steps.foldl (State.step capacity) s

end model

section invariant
variable {capacity : Nat}

/-- The event that the goroutine is about to write. -/
def Client.inflight (c : Client) : List Frame :=
  match c.pump with
  | .writing f => [f]
  | _ => []

/-- What is written, being written and queued stands in the order in which it was queued, and the pipe
has the bytes of what is written; a part of an event only at its end. -/
structure Client.Sound (capacity : Nat) (c : Client) : Prop where
  bound : c.queue.length ≤ capacity
  order : (c.written ++ c.inflight ++ c.queue).Sublist c.enqueued
  stream : ∃ tail, c.stream = c.written.flatMap Frame.bytes ++ tail ∧ IsCut tail ∧
    (c.pump = .ended ∨ tail = [])

theorem Client.sound_initial (capacity : Nat) : Client.initial.Sound capacity where
  bound := Nat.zero_le _
  order := List.Sublist.refl _
  stream := ⟨[], rfl, Or.inl rfl, Or.inr rfl⟩

namespace Client.Sound
variable {c : Client}

theorem hand (h : c.Sound capacity) (f : Frame) : (c.hand f).Sound capacity := ⟨h.bound, h.order, h.stream⟩

theorem enqueue (h : c.Sound capacity) (f : Frame) (hroom : c.queue.length < capacity) :
    (c.enqueue f).Sound capacity where
  bound := by
    simp only [Client.enqueue, List.length_append, List.length_singleton]
    exact hroom
  order := by
    have hlast := h.order.append (List.Sublist.refl [f])
    rw [List.append_assoc] at hlast
    exact hlast
  stream := h.stream

theorem dropOldest (h : c.Sound capacity) : c.dropOldest.Sound capacity where
  bound := by
    have hbound := h.bound
    simp only [Client.dropOldest, List.length_tail]
    omega
  order := ((List.Sublist.refl (c.written ++ c.inflight)).append (List.tail_sublist c.queue)).trans h.order
  stream := h.stream

theorem take (h : c.Sound capacity) : c.take.Sound capacity := by
  unfold Client.take
  split
  · rename_i f rest hpump hqueue
    obtain ⟨hbound, horder, tail, hstream, -, hend⟩ := h
    have htail : tail = [] := hend.resolve_left (by rw [hpump]; exact Pump.noConfusion)
    rw [hqueue] at hbound horder
    refine ⟨Nat.le_of_succ_le hbound, ?_, tail, hstream, Or.inl htail, Or.inr htail⟩
    -- the event moves from the queue to the goroutine, and the order stays
    simpa [Client.inflight, hpump] using horder
  · exact h

/-- A frame that is written completely. -/
theorem written_order {f : Frame} (h : c.Sound capacity) (hpump : c.pump = .writing f) (pump : Pump)
    (hidle : ∀ f', pump ≠ .writing f') :
    ({ c with pump := pump, stream := c.stream ++ f.bytes, written := c.written ++ [f] } :
      Client).Sound capacity := by
  obtain ⟨hbound, horder, tail, hstream, -, hend⟩ := h
  have htail : tail = [] := hend.resolve_left (by rw [hpump]; exact Pump.noConfusion)
  have hnone : ({ c with pump := pump, stream := c.stream ++ f.bytes, written := c.written ++ [f] } :
      Client).inflight = [] := by
    unfold Client.inflight
    cases pump with
    | writing f' => exact absurd rfl (hidle f')
    | waiting | ended => rfl
  refine ⟨hbound, ?_, [], ?_, Or.inl rfl, Or.inr rfl⟩
  · rw [hnone, List.append_nil]
    simpa [Client.inflight, hpump] using horder
  · simp [hstream, htail]

theorem write (h : c.Sound capacity) : c.write.Sound capacity := by
  unfold Client.write
  split
  · exact h.written_order ‹_› .waiting fun _ => Pump.noConfusion
  · exact h

theorem fail (h : c.Sound capacity) (k : Nat) : (c.fail k).Sound capacity := by
  unfold Client.fail
  split
  · rename_i f hpump
    split
    · exact h.written_order hpump .ended fun _ => Pump.noConfusion
    · rename_i hpart
      obtain ⟨hbound, horder, tail, hstream, -, hend⟩ := h
      have htail : tail = [] := hend.resolve_left (by rw [hpump]; exact Pump.noConfusion)
      have hcut : IsCut (f.bytes.take k) := by
        refine Or.inr ⟨f, List.take_prefix k f.bytes, fun hwhole => ?_⟩
        have hlength := congrArg List.length hwhole
        rw [List.length_take] at hlength
        omega
      refine ⟨hbound, ?_, f.bytes.take k, by simp [hstream, htail], hcut, Or.inl rfl⟩
      -- the event is given up, and what remains is still in order
      refine List.Sublist.trans ?_ horder
      simp [Client.inflight]
  · exact h

theorem quit (h : c.Sound capacity) : c.quit.Sound capacity where
  bound := h.bound
  order := by
    refine List.Sublist.trans ?_ h.order
    simp [Client.inflight, Client.quit]
  stream := by
    obtain ⟨tail, hstream, hcut, -⟩ := h.stream
    exact ⟨tail, hstream, hcut, Or.inl rfl⟩

end Client.Sound

/-- The event that a call is about to queue for a client. -/
def State.pendingFor (s : State) (client : Nat) : List Frame :=
  match s.sender with
  | .queueing f client' _ _ => if client = client' then [f] else []
  | .free => []

/-- Every event handed to `queueLatestEvent` has been queued, except the one that is being queued; and
the second attempt finds room. -/
structure State.Sound (capacity : Nat) (s : State) : Prop where
  clients : ∀ i, (s.clients i).Sound capacity
  handed : ∀ i, (s.clients i).handed = (s.clients i).enqueued ++ s.pendingFor i
  room : ∀ f i rest, s.sender = .queueing f i .second rest → (s.clients i).queue.length < capacity

variable {s : State}

theorem State.sound_initial (capacity : Nat) : State.initial.Sound capacity where
  clients := fun _ => Client.sound_initial capacity
  handed := fun _ => rfl
  room := fun _ _ _ h => Sender.noConfusion h

theorem State.update_same (s : State) (i : Nat) (g : Client → Client) :
    (s.update i g).clients i = g (s.clients i) := Function.update_self ..

theorem State.update_other (s : State) {i j : Nat} (h : j ≠ i) (g : Client → Client) :
    (s.update i g).clients j = s.clients j := Function.update_of_ne h ..

theorem State.update_sound (h : ∀ j, (s.clients j).Sound capacity) (i : Nat) {g : Client → Client}
    (hg : (g (s.clients i)).Sound capacity) (j : Nat) : ((s.update i g).clients j).Sound capacity := by
  by_cases hj : j = i
  · subst hj
    rw [State.update_same]
    exact hg
  · rw [State.update_other s hj]
    exact h j

/-- A call that has queued its event for one client goes on to the next. -/
theorem State.goOn_sound (h : ∀ i, (s.clients i).Sound capacity)
    (hhanded : ∀ i, (s.clients i).handed = (s.clients i).enqueued) (f : Frame) (targets : List Nat) :
    (s.goOn f targets).Sound capacity := by
  cases targets with
  | nil =>
    exact ⟨h, fun i => (hhanded i).trans (List.append_nil _).symm, fun _ _ _ hs => Sender.noConfusion hs⟩
  | cons client rest =>
    refine ⟨State.update_sound (g := fun c => c.hand f) h client ((h client).hand f), fun i => ?_,
      fun f' i rest' hs => ?_⟩
    · change ((s.update client (·.hand f)).clients i).handed =
        ((s.update client (·.hand f)).clients i).enqueued ++ if i = client then [f] else []
      by_cases hi : i = client
      · subst hi
        rw [State.update_same, if_pos rfl]
        exact congrArg (· ++ [f]) (hhanded i)
      · rw [State.update_other s hi, if_neg hi, List.append_nil]
        exact hhanded i
    · cases hs

/-- The first attempt that finds room, and the second. -/
theorem State.Sound.enqueued (h : s.Sound capacity) {f : Frame} {client : Nat} {stage : Stage} {rest : List Nat}
    (hsender : s.sender = .queueing f client stage rest)
    (hroom : (s.clients client).queue.length < capacity) :
    ((s.update client (·.enqueue f)).goOn f rest).Sound capacity := by
  apply State.goOn_sound (State.update_sound h.clients client ((h.clients client).enqueue f hroom))
  intro i
  have hhanded := h.handed i
  rw [State.pendingFor, hsender] at hhanded
  by_cases hi : i = client
  · subst hi
    rw [State.update_same]
    simpa [Client.enqueue] using hhanded
  · rw [State.update_other s hi]
    simpa [hi] using hhanded

theorem State.Sound.advance (hcapacity : 1 ≤ capacity) (h : s.Sound capacity) :
    (s.advance capacity).Sound capacity := by
  unfold State.advance
  split
  · exact h
  · rename_i f client rest hsender
    split
    · exact h.enqueued hsender ‹_›
    · refine ⟨h.clients, fun i => ?_, fun _ _ _ hs => (by cases hs)⟩
      have hhanded := h.handed i
      rw [State.pendingFor, hsender] at hhanded
      exact hhanded
  · rename_i f client rest hsender
    refine ⟨State.update_sound h.clients client (h.clients client).dropOldest, fun i => ?_, ?_⟩
    · have hhanded := h.handed i
      rw [State.pendingFor, hsender] at hhanded
      change ((s.update client Client.dropOldest).clients i).handed =
        ((s.update client Client.dropOldest).clients i).enqueued ++ if i = client then [f] else []
      by_cases hi : i = client
      · subst hi
        rw [State.update_same]
        exact hhanded
      · rw [State.update_other s hi]
        exact hhanded
    · -- whoever took an event, this step or the goroutine before it, the queue is not full
      intro f' i rest' hs
      cases hs
      change ((s.update client Client.dropOldest).clients client).queue.length < capacity
      have hbound := (h.clients client).bound
      rw [State.update_same, Client.dropOldest, List.length_tail]
      omega
  · rename_i f client rest hsender
    have hroom := h.room f client rest hsender
    rw [if_pos hroom]
    exact h.enqueued hsender hroom

theorem State.Sound.notify (h : s.Sound capacity) (n : Notification) (targets : List Nat) :
    (s.notify n targets).Sound capacity := by
  unfold State.notify
  split
  · rename_i hsender
    split
    · apply State.goOn_sound h.clients
      intro i
      have hhanded := h.handed i
      rw [State.pendingFor, hsender] at hhanded
      exact hhanded.trans (List.append_nil _)
    · exact h
  · exact h

/-- A step of the goroutine of a client queues nothing. -/
theorem State.Sound.pump (h : s.Sound capacity) (i : Nat) {g : Client → Client}
    (hg : (g (s.clients i)).Sound capacity) (hhanded : (g (s.clients i)).handed = (s.clients i).handed)
    (henqueued : (g (s.clients i)).enqueued = (s.clients i).enqueued)
    (hqueue : (g (s.clients i)).queue.length ≤ (s.clients i).queue.length) :
    (s.update i g).Sound capacity := by
  refine ⟨State.update_sound h.clients i hg, fun j => ?_, fun f j rest hs => ?_⟩
  · have hj := h.handed j
    change ((s.update i g).clients j).handed = ((s.update i g).clients j).enqueued ++ s.pendingFor j
    by_cases heq : j = i
    · subst heq
      rw [State.update_same, hhanded, henqueued]
      exact hj
    · rw [State.update_other s heq]
      exact hj
  · have hroom := h.room f j rest hs
    by_cases heq : j = i
    · subst heq
      rw [State.update_same]
      exact Nat.lt_of_le_of_lt hqueue hroom
    · rw [State.update_other s heq]
      exact hroom

theorem State.Sound.step (hcapacity : 1 ≤ capacity) (h : s.Sound capacity) (x : Step) :
    (s.step capacity x).Sound capacity := by
  cases x with
  | notify n targets => exact h.notify n targets
  | advance => exact h.advance hcapacity
  | take i =>
    apply h.pump i (h.clients i).take
    all_goals unfold Client.take
    · split <;> rfl
    · split <;> rfl
    · split
      · rename_i hqueue
        rw [hqueue]
        exact Nat.le_succ _
      · exact Nat.le_refl _
  | write i =>
    apply h.pump i (h.clients i).write
    all_goals unfold Client.write
    · split <;> rfl
    · split <;> rfl
    · split <;> exact Nat.le_refl _
  | fail i k =>
    apply h.pump i (g := fun c => c.fail k) ((h.clients i).fail k)
    all_goals unfold Client.fail
    · split <;> first | rfl | (split <;> rfl)
    · split <;> first | rfl | (split <;> rfl)
    · split <;> first | exact Nat.le_refl _ | (split <;> exact Nat.le_refl _)
  | quit i => exact h.pump i (h.clients i).quit rfl rfl (Nat.le_refl _)

theorem State.Sound.run (hcapacity : 1 ≤ capacity) (h : s.Sound capacity) (steps : List Step) :
    (s.run capacity steps).Sound capacity := by
  induction steps generalizing s with
  | nil => exact h
  | cons x steps ih => exact ih (h.step hcapacity x)

/-- At every moment of every run: each event handed to the queue of a client has been queued, except
the one that is being queued; what was written is a subsequence of that, in its order, and stands in
the pipe completely, with at most a part of one more event at its end; and from these bytes the client
decodes the notifications that were written and nothing else. -/
theorem notifications_in_order (capacity : Nat) (hcapacity : 1 ≤ capacity) (steps : List Step) (i : Nat) :
    let s := State.initial.run capacity steps
    (s.clients i).handed = (s.clients i).enqueued ++ s.pendingFor i ∧
      (s.clients i).written.Sublist (s.clients i).enqueued ∧
      (∃ tail, (s.clients i).stream = (s.clients i).written.flatMap Frame.bytes ++ tail ∧ IsCut tail ∧
        ((s.clients i).pump = .ended ∨ tail = [])) ∧
      ∀ fuel, (s.clients i).stream.length < fuel →
        clientLoop fuel (s.clients i).stream = (s.clients i).written.map Frame.note := by
  have hsound := (State.sound_initial capacity).run hcapacity steps
  have hclient := hsound.clients i
  refine ⟨hsound.handed i, ?_, hclient.stream, fun fuel hfuel => ?_⟩
  · refine List.Sublist.trans ?_ hclient.order
    rw [List.append_assoc]
    exact List.sublist_append_left _ _
  · obtain ⟨tail, hstream, hcut, -⟩ := hclient.stream
    rw [hstream] at hfuel ⊢
    exact clientLoop_frames _ hcut hfuel

/-- Two notifications to a client whose queue has room for one event; the second call drops the first
event, and the goroutine writes the second. -/
def busySteps : List Step :=
  [.notify .tunnelsChange [0], .advance, .notify .managerStopping [0], .advance, .advance, .advance, .take 0,
    .write 0]

theorem notifications_in_order_busy :
    (((State.initial.run 1 busySteps).clients 0).written.map Frame.note = [.managerStopping]) ∧
      ∀ fuel, ((State.initial.run 1 busySteps).clients 0).stream.length < fuel →
        clientLoop fuel ((State.initial.run 1 busySteps).clients 0).stream = [.managerStopping] := by
  have hwritten : ((State.initial.run 1 busySteps).clients 0).written.map Frame.note = [.managerStopping] := by
    decide +kernel
  refine ⟨hwritten, fun fuel hfuel => ?_⟩
  rw [← hwritten]
  exact (notifications_in_order 1 (Nat.le_refl 1) busySteps 0).2.2.2 fuel hfuel

end invariant

end SmartAwg.Events
