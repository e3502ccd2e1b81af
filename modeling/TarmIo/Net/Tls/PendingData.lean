import TarmIo.Foundation.Execution
import TarmIo.Net.Tls.Handshake

/-!
# Received data behind a finished handshake

Once the handshake is finished, what was received has to be offered to `SSL_read`:
nothing else asks for it. The run below starts with the first `do_handshake` and
interleaves received chunks with the completions of sends. Bytes that
`SSL_do_handshake` takes belong to the handshake; what stays in the read BIO is
what `SSL_read` has to see.
-/

namespace TarmIo.Net.Tls

open Foundation

/-- A chunk that the read BIO accepts whole, or the completion of a send, with what
OpenSSL and the underlying client answer to it. -/
inductive SslEvent where
  | chunk (data : List UInt8) (call : HandshakeCall) (send : Error) (read : ReadLoop)
  | sendCompleted (status : Error) (read : ReadLoop)

namespace SslClient

def step (c : SslClient) : SslEvent → Option SslClient
  | .chunk data call send read =>
      if data = [] then none else some (c.onDataReceive data data.length call send read).1
  | .sendCompleted status read => (c.sendCompleted status read).map Prod.fst

/-- With the handshake finished, every byte in the read BIO was offered to `SSL_read`. -/
def NothingStuck (c : SslClient) : Prop :=
  c.handshakeState = .finished → c.readBio.length ≤ c.offered

/-- The send that ends the handshake completes with the read BIO empty, if it was empty
when the handshake was done. -/
def CompletesDrained (c : SslClient) : SslEvent → Prop
  | .chunk _ _ _ _ => True
  | .sendCompleted status _ =>
      status.isError = false → c.sends.head? = some (.finishing 0) → c.readBio = []

/-! ## What the functions keep -/

variable {c : SslClient}

def isFinishing : SendCallback → Bool
  | .finishing _ => true
  | _ => false

/-- `SSL_read` was not called before the handshake is finished; afterwards nothing is
stuck; and the send that ends the handshake is pending once at most, while the
handshake is finishing. -/
structure Tidy (c : SslClient) : Prop where
  unread : c.handshakeState ≠ .finished → c.offered = 0
  offered : c.NothingStuck
  finishing : c.sends.countP isFinishing ≤ if c.handshakeState = .finishing then 1 else 0

theorem Tidy.finishing_nil (h : c.Tidy) (hne : c.handshakeState ≠ .finishing) :
    c.sends.countP isFinishing = 0 := by
  have hle := h.finishing
  rw [if_neg hne] at hle
  omega

theorem finishAndRead_tidy {readPending : Nat} (read : ReadLoop)
    (hsends : c.sends.countP isFinishing = 0) (hdrained : readPending = 0 → c.readBio = []) :
    (c.finishAndRead readPending read).1.Tidy := by
  have hcount : ∀ n, c.sends.countP isFinishing ≤ n := by
    intro n
    omega
  unfold finishAndRead
  split
  · exact ⟨fun hne => absurd rfl hne, fun _ => Nat.le_refl _, hcount _⟩
  · rename_i hpending
    have hnil := hdrained (Decidable.not_not.mp hpending)
    refine ⟨fun hne => absurd rfl hne, fun _ => ?_, hcount _⟩
    simp [finishHandshake, hnil]

/-- With an error no send callback changes the state. -/
theorem runSendCallback_error (c : SslClient) (callback : SendCallback) {error : Error}
    (herror : error.isError = true) (read : ReadLoop) :
    (c.runSendCallback callback error read).1 = c := by
  cases callback with
  | handshake => rfl
  | ignored => rfl
  | finishing readPending => simp [runSendCallback, herror]

theorem internalReadFromSllAndSend_tidy {c : SslClient} (h : c.Tidy) (onSend : SendCallback)
    (send : Error) (read : ReadLoop)
    (hroom : isFinishing onSend = true →
      c.handshakeState = .finishing ∧ c.sends.countP isFinishing = 0) :
    (c.internalReadFromSllAndSend onSend send read).1.Tidy := by
  unfold internalReadFromSllAndSend
  split
  · exact h
  · split
    · rename_i herror
      rw [runSendCallback_error _ onSend herror]
      exact ⟨h.unread, h.offered, h.finishing⟩
    · refine ⟨h.unread, h.offered, ?_⟩
      simp only [List.countP_append, List.countP_singleton]
      have hle := h.finishing
      split
      · rename_i hfin
        obtain ⟨hstate, hzero⟩ := hroom hfin
        rw [if_pos hstate]
        omega
      · exact hle

theorem sslDoHandshake_tidy (h : c.Tidy) (hne : c.handshakeState ≠ .finished)
    (call : HandshakeCall) : (c.sslDoHandshake call).Tidy := by
  refine ⟨fun _ => ?_, fun hfinished => absurd hfinished hne, h.finishing⟩
  simp [sslDoHandshake, h.unread hne]

theorem afterSslDoHandshake_tidy (h : c.Tidy) (hne : c.handshakeState ≠ .finished)
    (hfin : c.handshakeState ≠ .finishing) (result : HandshakeResult) (send : Error)
    (read : ReadLoop) : (c.afterSslDoHandshake result send read).1.Tidy := by
  have hzero := h.finishing_nil hfin
  cases result with
  | done =>
      rw [afterSslDoHandshake]
      split
      · exact finishAndRead_tidy read hzero List.eq_nil_of_length_eq_zero
      · apply internalReadFromSllAndSend_tidy
        · refine ⟨fun _ => h.unread hne, nofun, ?_⟩
          simp [hzero]
        · exact fun _ => ⟨rfl, hzero⟩
  | wantRead =>
      rw [afterSslDoHandshake]
      split
      · exact h
      · exact internalReadFromSllAndSend_tidy h .handshake send read nofun
  | wantWrite => exact h
  | error reason => exact internalReadFromSllAndSend_tidy h .ignored send read nofun
  | shutDown reason => exact h

theorem doHandshake_tidy (h : c.Tidy) (hne : c.handshakeState ≠ .finished) (call : HandshakeCall)
    (send : Error) (read : ReadLoop) : (c.doHandshake call send read).1.Tidy := by
  unfold doHandshake
  split
  · exact h
  · rename_i hfin
    exact afterSslDoHandshake_tidy (sslDoHandshake_tidy h hne call) hne hfin call.result send read

theorem onDataReceive_tidy (h : c.Tidy) (data : List UInt8) {writeSize : Int}
    (haccepted : 0 < writeSize) (call : HandshakeCall) (send : Error) (read : ReadLoop) :
    (c.onDataReceive data writeSize call send read).1.Tidy := by
  unfold onDataReceive
  split
  · rename_i hfinished
    rw [if_neg (by omega)]
    exact ⟨fun hne => absurd hfinished hne, fun _ => Nat.le_refl _, h.finishing⟩
  · rename_i hne
    rw [if_neg (by omega)]
    have hwritten : (c.bioWrite (data.take writeSize.toNat)).Tidy :=
      ⟨h.unread, fun hf => absurd hf hne, h.finishing⟩
    exact doHandshake_tidy hwritten hne call send read

theorem sendCompleted_tidy (h : c.Tidy) {callback : SendCallback} {rest : List SendCallback}
    (hsends : c.sends = callback :: rest) (status : Error) (read : ReadLoop)
    (hdrained : status.isError = false → callback = .finishing 0 → c.readBio = []) :
    ({ c with sends := rest }.runSendCallback callback status read).1.Tidy := by
  have hcount := h.finishing
  rw [hsends, List.countP_cons] at hcount
  have hrest : ({ c with sends := rest } : SslClient).Tidy :=
    ⟨h.unread, h.offered, Nat.le_trans (Nat.le_add_right _ _) hcount⟩
  cases callback with
  | handshake => exact hrest
  | ignored => exact hrest
  | finishing readPending =>
      rw [runSendCallback]
      split
      · exact hrest
      · rename_i hok
        apply finishAndRead_tidy
        · simp only [isFinishing, if_true] at hcount
          simp only
          split at hcount <;> omega
        · rintro rfl
          exact hdrained (by simpa using hok) rfl

/-- A completion that leaves unread bytes behind sticks them. -/
theorem finishing_stuck (h : c.Tidy) {rest : List SendCallback}
    (hsends : c.sends = .finishing 0 :: rest) {status : Error} (hok : status.isError = false)
    (hpending : c.readBio ≠ []) (read : ReadLoop) :
    ¬ ({ c with sends := rest }.runSendCallback (.finishing 0) status read).1.NothingStuck := by
  have hne : c.handshakeState ≠ .finished := by
    intro hfinished
    have hzero := h.finishing_nil (by rw [hfinished]; decide)
    simp [hsends, isFinishing] at hzero
  intro hstuck
  have hle := hstuck (by simp [runSendCallback, hok, finishAndRead, finishHandshake])
  simp only [runSendCallback, hok, finishAndRead, finishHandshake, h.unread hne, ne_eq,
    not_true_eq_false, if_false, Bool.false_eq_true, Nat.le_zero, List.length_eq_zero_iff] at hle
  exact hpending hle

theorem tidy_start : Tidy {} := ⟨fun _ => rfl, nofun, by decide⟩

theorem step_tidy {c c' : SslClient} {e : SslEvent} (h : c.Tidy) (hgood : c.CompletesDrained e)
    (hstep : c.step e = some c') : c'.Tidy := by
  cases e with
  | chunk data call send read =>
      simp only [step, Option.ite_none_left_eq_some, Option.some.injEq] at hstep
      obtain ⟨hne, rfl⟩ := hstep
      have hpos := List.length_pos_iff.mpr hne
      exact onDataReceive_tidy h data (by omega) call send read
  | sendCompleted status read =>
      cases hsends : c.sends with
      | nil => simp [step, sendCompleted, hsends] at hstep
      | cons callback rest =>
          simp only [step, sendCompleted, hsends, Option.map_some, Option.some.injEq] at hstep
          subst hstep
          refine sendCompleted_tidy h hsends status read fun hok hcb => hgood hok ?_
          rw [hsends, hcb]
          rfl

/-- Nothing is stuck in any state of a run exactly when each send that ends the handshake
with no data pending at that time completes with no data pending either. Chunks that arrive in
between are kept back by the finishing state and are not read when it ends. -/
theorem nothing_stuck_iff (call : HandshakeCall) (send : Error) (read : ReadLoop)
    {events : List SslEvent} {t : SslClient}
    (hrun : exec step (doHandshake {} call send read).1 events = some t) :
    Throughout step NothingStuck (doHandshake {} call send read).1 events ↔
      Along step CompletesDrained (doHandshake {} call send read).1 events := by
  have hstart := doHandshake_tidy tidy_start (by decide) call send read
  refine throughout_iff_along (fun _ h => h.offered) (fun _ _ _ => step_tidy) ?_ hstart hrun
  intro c e c' h hbad hstep
  cases e with
  | chunk data call send read => exact absurd trivial hbad
  | sendCompleted status read =>
      simp only [CompletesDrained, Classical.not_imp] at hbad
      obtain ⟨hok, hhead, hpending⟩ := hbad
      cases hsends : c.sends with
      | nil => simp [hsends] at hhead
      | cons callback rest =>
          rw [hsends, List.head?_cons, Option.some.injEq] at hhead
          subst hhead
          simp only [step, sendCompleted, hsends, Option.map_some, Option.some.injEq] at hstep
          subst hstep
          exact finishing_stuck h hsends hok hpending read

def helloCall : HandshakeCall := ⟨.wantRead, [1], 0⟩

def answerCall : HandshakeCall := ⟨.done, [2], 2⟩

def emptyRead : ReadLoop := ⟨[], .wantRead, 0⟩

def lateChunk : List SslEvent :=
  [.sendCompleted {} emptyRead, .chunk [3, 4] answerCall {} emptyRead,
    .chunk [5] answerCall {} emptyRead, .sendCompleted {} emptyRead]

/-- The byte is left in the read BIO of a finished client and was never offered. -/
theorem late_chunk_stuck :
    exec step (doHandshake {} helloCall {} emptyRead).1 lateChunk =
        some { handshakeState := .finished, readBio := [5] } ∧
      ¬ Throughout step NothingStuck (doHandshake {} helloCall {} emptyRead).1 lateChunk := by
  have hrun : exec step (doHandshake {} helloCall {} emptyRead).1 lateChunk =
      some { handshakeState := .finished, readBio := [5] } := by
    decide
  refine ⟨hrun, fun hall => ?_⟩
  exact absurd (hall.last hrun rfl) (by decide)

theorem nothing_stuck_iff_answer :
    Throughout step NothingStuck (doHandshake {} helloCall {} emptyRead).1
        [.sendCompleted {} emptyRead, .chunk [3, 4] answerCall {} emptyRead,
          .sendCompleted {} emptyRead] ↔
      Along step CompletesDrained (doHandshake {} helloCall {} emptyRead).1
        [.sendCompleted {} emptyRead, .chunk [3, 4] answerCall {} emptyRead,
          .sendCompleted {} emptyRead] :=
  @nothing_stuck_iff helloCall {} emptyRead _ { handshakeState := .finished } (by decide)

end SslClient

end TarmIo.Net.Tls
