import TarmIo.Foundation.Execution
import TarmIo.Net.TcpSend

/-!
# Sends and their callbacks

The sends of a `TcpClient` or a `TcpConnectedClient`, which share `TcpClientImplBase`, and the
writes that libuv has accepted and not completed. The machine stops in every end-send callback: the
sends of the callback are steps, and `leave` is its end. After the callback `send_data_impl` and
`after_write` only release the request. Whether the client is open is changed by its other
functions, at any time.

libuv completes every accepted write once, in any order, and not in a callback.
-/

namespace TarmIo.Net

open Foundation

/-- What is sent: the overloads of `send_data`, and `copy_and_send_data`. -/
inductive Outgoing
  | copied (bytes : List UInt8) (size : UInt32)
  | buffer (bytes : Option (List UInt8)) (size : UInt32)
  | string (message : List UInt8)
  | movedString (message : List UInt8)
deriving DecidableEq

def Outgoing.send (c : TcpClient) (callback : Bool) (uvWrite : Error) :
    Outgoing → TcpClient × List SendEffect
  | .copied bytes size => c.copyAndSendData bytes size callback uvWrite
  | .buffer bytes size => c.sendData bytes size callback uvWrite
  | .string message => c.sendDataString message callback uvWrite
  | .movedString message => c.sendDataStringMove message callback uvWrite

/-- The client, and what is only observed. `sends` says of every send whether it has a callback; a
send is named by its position. `inFlight` lists the accepted writes that are not complete, `inside`
the sends whose callbacks run, and `answers` the calls of the callbacks. -/
structure Sending where
  client : TcpClient
  sends : List Bool := []
  inFlight : List Nat := []
  inside : List Nat := []
  answers : List (Nat × Error) := []
  accepted : Nat := 0
  completed : Nat := 0
deriving DecidableEq

inductive SendingEvent
  | send (message : Outgoing) (callback : Bool) (uvWrite : Error)
  | afterWrite (send : Nat) (uvStatus : Error)
  | leave
  | setOpen (isOpen : Bool)
deriving DecidableEq

namespace Sending

/-! ## The machine -/

def answer (s : Sending) (send : Nat) (error : Error) : Sending :=
  { s with answers := s.answers ++ [(send, error)], inside := send :: s.inside }

def effect (send : Nat) (s : Sending) : SendEffect → Sending
  | .write _ => { s with inFlight := s.inFlight ++ [send], accepted := s.accepted + 1 }
  | .callback error => s.answer send error

def send (s : Sending) (message : Outgoing) (callback : Bool) (uvWrite : Error) : Sending :=
  let (client, effects) := message.send s.client callback uvWrite
  effects.foldl (effect s.sends.length) { s with client, sends := s.sends ++ [callback] }

/-- `after_write`, up to the callback. -/
def afterWrite (s : Sending) (send : Nat) (uvStatus : Error) : Sending :=
  let s' : Sending :=
    { s with
      client :=
        { s.client with pendingWriteRequests := s.client.pendingWriteRequests - 1 }
      inFlight := s.inFlight.erase send
      completed := s.completed + 1 }
  if s.sends[send]? = some true then s'.answer send uvStatus else s'

def step (s : Sending) : SendingEvent → Option Sending
  | .send message callback uvWrite => some (s.send message callback uvWrite)
  | .afterWrite send uvStatus =>
      if s.inside = [] ∧ send ∈ s.inFlight then some (s.afterWrite send uvStatus) else none
  | .leave =>
      match s.inside with
      | [] => none
      | _ :: inside => some { s with inside }
  | .setOpen isOpen => some { s with client := { s.client with isOpen } }

def timesAnswered (s : Sending) (send : Nat) : Nat := (s.answers.map Prod.fst).count send

/-! ## A send -/

theorem sendDataImpl_cases (c : TcpClient) (buffer : Option (List UInt8)) (size : UInt32)
    (callback : Bool) (uvWrite : Error) :
    (∃ bytes, c.sendDataImpl buffer size callback uvWrite =
      ({ c with pendingWriteRequests := c.pendingWriteRequests + 1 }, [.write bytes])) ∨
    ∃ error,
      c.sendDataImpl buffer size callback uvWrite = (c, SendEffect.report callback error) := by
  rw [TcpClient.sendDataImpl]
  split
  · exact .inr ⟨_, rfl⟩
  · split
    · exact .inr ⟨_, rfl⟩
    · split
      · exact .inr ⟨_, rfl⟩
      · exact .inl ⟨_, rfl⟩

/-- A send is accepted, or answered at once. -/
theorem send_cases (m : Outgoing) (c : TcpClient) (callback : Bool) (uvWrite : Error) :
    (∃ bytes, m.send c callback uvWrite =
      ({ c with pendingWriteRequests := c.pendingWriteRequests + 1 }, [.write bytes])) ∨
    ∃ error, m.send c callback uvWrite = (c, SendEffect.report callback error) := by
  cases m with
  | copied bytes size => exact sendDataImpl_cases c _ size callback uvWrite
  | buffer bytes size => exact sendDataImpl_cases c bytes size callback uvWrite
  | string message => exact sendDataImpl_cases c _ _ callback uvWrite
  | movedString message => exact sendDataImpl_cases c _ _ callback uvWrite

/-! ## The invariant -/

def Answered (s : Sending) (send : Nat) : Prop := s.sends[send]? = some true ∧ send ∉ s.inFlight

instance (s : Sending) (send : Nat) : Decidable (s.Answered send) :=
  inferInstanceAs (Decidable (_ ∧ _))

structure Balanced (s : Sending) : Prop where
  pending : s.client.pendingWriteRequests = s.inFlight.length
  balance : s.inFlight.length + s.completed = s.accepted
  nodup : s.inFlight.Nodup
  known : ∀ send ∈ s.inFlight, send < s.sends.length
  answers : ∀ send, s.timesAnswered send = if s.Answered send then 1 else 0

variable {s s' : Sending}

theorem balanced_start (isOpen : Bool) :
    Balanced { client := { isOpen, pendingWriteRequests := 0 } } :=
  ⟨rfl, rfl, List.nodup_nil, fun _ h => absurd h List.not_mem_nil, fun _ => rfl⟩

theorem timesAnswered_answer (s : Sending) (send other : Nat) (error : Error) :
    (s.answer send error).timesAnswered other =
      s.timesAnswered other + if send = other then 1 else 0 := by
  simp [timesAnswered, answer, List.count_singleton]

theorem Balanced.not_answered_next (h : s.Balanced) : s.timesAnswered s.sends.length = 0 := by
  rw [h.answers, if_neg]
  rintro ⟨hknown, _⟩
  rw [List.getElem?_eq_none (Nat.le_refl _)] at hknown
  cases hknown

theorem getElem?_snoc_of_ne {callbacks : List Bool} {callback : Bool} {send : Nat}
    (hne : send ≠ callbacks.length) : (callbacks ++ [callback])[send]? = callbacks[send]? := by
  rcases Nat.lt_or_gt_of_ne hne with hlt | hgt
  · exact List.getElem?_append_left hlt
  · rw [List.getElem?_eq_none (by simp; omega), List.getElem?_eq_none (Nat.le_of_lt hgt)]

section

variable (h : s.Balanced)
include h

theorem Balanced.write (callback : Bool) :
    Balanced
      { s with
        client :=
          { s.client with pendingWriteRequests := s.client.pendingWriteRequests + 1 }
        sends := s.sends ++ [callback]
        inFlight := s.inFlight ++ [s.sends.length]
        accepted := s.accepted + 1 } := by
  have hnew : s.sends.length ∉ s.inFlight := fun hmem => Nat.lt_irrefl _ (h.known _ hmem)
  have hbalance := h.balance
  have hpending := h.pending
  refine ⟨?_, ?_, ?_, ?_, fun send => ?_⟩
  · simp [hpending]
  · simp only [List.length_append, List.length_singleton]
    omega
  · exact List.nodup_append.mpr ⟨h.nodup, by simp, fun a ha b hb => by
      obtain rfl := List.mem_singleton.mp hb
      exact fun heq => hnew (heq ▸ ha)⟩
  · intro send hmem
    rw [List.length_append, List.length_singleton]
    rcases List.mem_append.mp hmem with hold | hsame
    · exact Nat.lt_succ_of_lt (h.known send hold)
    · rw [List.mem_singleton.mp hsame]
      exact Nat.lt_succ_self _
  · change s.timesAnswered send = _
    by_cases heq : send = s.sends.length
    · subst heq
      rw [h.not_answered_next, if_neg]
      exact fun hanswered => hanswered.2 (List.mem_append_right _ (List.mem_singleton_self _))
    · rw [h.answers]
      refine if_congr ?_ rfl rfl
      simp only [Answered, getElem?_snoc_of_ne heq, List.mem_append, List.mem_singleton, heq,
        or_false]

theorem Balanced.refuse (callback : Bool) (error : Error) :
    Balanced ((SendEffect.report callback error).foldl (effect s.sends.length)
      { s with sends := s.sends ++ [callback] }) := by
  have hnew : s.sends.length ∉ s.inFlight := fun hmem => Nat.lt_irrefl _ (h.known _ hmem)
  have hknown : ∀ send ∈ s.inFlight, send < (s.sends ++ [callback]).length := by
    intro send hmem
    rw [List.length_append, List.length_singleton]
    exact Nat.lt_succ_of_lt (h.known send hmem)
  have hother {send : Nat} (hne : send ≠ s.sends.length) :
      ((s.sends ++ [callback])[send]? = some true ∧ send ∉ s.inFlight) ↔ s.Answered send := by
    rw [getElem?_snoc_of_ne hne, Answered]
  cases callback with
  | false =>
      refine ⟨h.pending, h.balance, h.nodup, hknown, fun send => ?_⟩
      change s.timesAnswered send = _
      by_cases heq : send = s.sends.length
      · subst heq
        rw [h.not_answered_next, if_neg]
        rintro ⟨hcallback, _⟩
        simp [SendEffect.report] at hcallback
      · rw [h.answers]
        exact if_congr (hother heq).symm rfl rfl
  | true =>
      refine ⟨h.pending, h.balance, h.nodup, hknown, fun send => ?_⟩
      refine (timesAnswered_answer _ s.sends.length send error).trans ?_
      change s.timesAnswered send + _ = _
      by_cases heq : send = s.sends.length
      · subst heq
        rw [h.not_answered_next, if_pos rfl, if_pos]
        exact ⟨List.getElem?_concat_length, hnew⟩
      · rw [h.answers, if_neg (Ne.symm heq), Nat.add_zero]
        exact if_congr (hother heq).symm rfl rfl

theorem Balanced.send (message : Outgoing) (callback : Bool) (uvWrite : Error) :
    (s.send message callback uvWrite).Balanced := by
  rw [Sending.send]
  rcases send_cases message s.client callback uvWrite with ⟨bytes, hsend⟩ | ⟨error, hsend⟩
  · rw [hsend]
    exact h.write callback
  · rw [hsend]
    exact h.refuse callback error

theorem Balanced.one_le_pending (hwrites : s.inFlight ≠ []) :
    1 ≤ s.client.pendingWriteRequests := by
  rw [h.pending]
  exact List.length_pos_of_ne_nil hwrites

/-- The write that completes is no longer in flight; the others are. -/
theorem Balanced.answered_erase {send other : Nat} (hmem : send ∈ s.inFlight) :
    (s.sends[other]? = some true ∧ other ∉ s.inFlight.erase send) ↔
      s.Answered other ∨ (other = send ∧ s.sends[send]? = some true) := by
  rw [h.nodup.mem_erase_iff, Answered]
  by_cases heq : other = send
  · subst heq
    simp [hmem]
  · simp [heq]

theorem Balanced.afterWrite {send : Nat} (hmem : send ∈ s.inFlight) (uvStatus : Error) :
    (s.afterWrite send uvStatus).Balanced := by
  have hone := h.one_le_pending (List.ne_nil_of_mem hmem)
  have hlength := List.length_erase_of_mem hmem
  have hpending := h.pending
  have hbalance := h.balance
  have hknown : ∀ other ∈ s.inFlight.erase send, other < s.sends.length :=
    fun other hother => h.known other (List.mem_of_mem_erase hother)
  have hnot : s.timesAnswered send = 0 := by
    rw [h.answers, if_neg]
    exact fun hanswered => hanswered.2 hmem
  rw [Sending.afterWrite]
  dsimp only
  split
  · rename_i hcallback
    refine ⟨?_, ?_, h.nodup.erase send, hknown, fun other => ?_⟩
    · simp only [answer]
      omega
    · simp only [answer]
      omega
    · rw [timesAnswered_answer]
      change s.timesAnswered other + _ = _
      by_cases heq : other = send
      · subst heq
        rw [hnot, if_pos rfl, if_pos]
        exact (h.answered_erase hmem).mpr (.inr ⟨rfl, hcallback⟩)
      · rw [if_neg (Ne.symm heq), Nat.add_zero, h.answers]
        refine if_congr ?_ rfl rfl
        exact Iff.trans (by simp [heq]) (h.answered_erase hmem).symm
  · rename_i hcallback
    refine ⟨?_, ?_, h.nodup.erase send, hknown, fun other => ?_⟩
    · dsimp only
      omega
    · dsimp only
      omega
    · change s.timesAnswered other = _
      rw [h.answers]
      refine if_congr ?_ rfl rfl
      exact Iff.trans (by simp [hcallback]) (h.answered_erase hmem).symm

theorem Balanced.step {e : SendingEvent} (hstep : s.step e = some s') : s'.Balanced := by
  cases e with
  | send message callback uvWrite =>
      cases hstep
      exact h.send message callback uvWrite
  | afterWrite send uvStatus =>
      rw [Sending.step] at hstep
      split at hstep
      · rename_i hwrite
        cases hstep
        exact h.afterWrite hwrite.2 uvStatus
      · cases hstep
  | leave =>
      rw [Sending.step] at hstep
      split at hstep
      · cases hstep
      · cases hstep
        exact ⟨h.pending, h.balance, h.nodup, h.known, h.answers⟩
  | setOpen isOpen =>
      cases hstep
      exact ⟨h.pending, h.balance, h.nodup, h.known, h.answers⟩

end

/-- Wherever a run of sends and completions has come to, `pending_write_requests` counts the
accepted writes that are not complete, it is positive when one of them completes, and the callbacks
of all other sends were called, once each. When all accepted writes are complete, so were all
callbacks. -/
theorem sends_answered_once (isOpen : Bool) {es : List SendingEvent}
    (h : exec step { client := { isOpen, pendingWriteRequests := 0 } } es = some s) :
    s.client.pendingWriteRequests + s.completed = s.accepted ∧
    (s.inFlight ≠ [] → 1 ≤ s.client.pendingWriteRequests) ∧
    (∀ send, s.timesAnswered send =
      if s.sends[send]? = some true ∧ send ∉ s.inFlight then 1 else 0) ∧
    (s.completed = s.accepted →
      ∀ send, s.sends[send]? = some true → s.timesAnswered send = 1) := by
  have hbalanced : s.Balanced :=
    exec_invariant (fun _ _ _ h hstep => h.step hstep) (balanced_start isOpen) h
  refine ⟨hbalanced.pending ▸ hbalanced.balance, hbalanced.one_le_pending, hbalanced.answers, ?_⟩
  intro hall send hsend
  have hempty : s.inFlight = [] := by
    have hbalance := hbalanced.balance
    exact List.eq_nil_of_length_eq_zero (by omega)
  rw [hbalanced.answers, if_pos ⟨hsend, by simp [hempty]⟩]

/-- A send whose callback sends on, a send on a closed client and a refused one. -/
def nestedSends : List SendingEvent :=
  [.send (.string [1]) true {}, .send (.buffer none 1) true {},
    .send (.movedString [2]) true (.ofCode .badFileDescriptor), .send (.copied [3] 1) false {},
    .leave, .leave, .afterWrite 3 {}, .afterWrite 0 (.ofCode .operationCanceled), .setOpen false,
    .send (.string [4]) true {}, .leave, .leave]

theorem sends_answered_once_nested : ∃ s,
    exec step { client := { isOpen := true, pendingWriteRequests := 0 } } nestedSends = some s ∧
      s.timesAnswered 4 = 1 := by
  have hrun :
      ∃ s ∈ exec step { client := { isOpen := true, pendingWriteRequests := 0 } } nestedSends,
      s.completed = s.accepted ∧ s.sends[4]? = some true := by
    decide +kernel
  obtain ⟨s, hexec, hall, hsend⟩ := hrun
  exact ⟨s, hexec, (sends_answered_once true hexec).2.2.2 hall 4 hsend⟩

end Sending

end TarmIo.Net
