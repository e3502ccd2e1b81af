import TarmIo.Foundation.Feeding
import TarmIo.Net.Tls.Handshake

/-!
# Handshakes and TCP segmentation

The peer's stream is passed to `on_data_receive` in pieces, and every send completes
before the next piece. OpenSSL is an oracle on the bytes received so far: what
`SSL_do_handshake` answers and what it has put out by then. A piece that ends
inside a record's header makes it ask for more and put out nothing, which `do_handshake`
takes for a failure, so the outcome depends on the cut unless all cuts fail.
-/

namespace TarmIo.Net.Tls

open Foundation

/-- OpenSSL in a handshake that waits for the peer: all answers depend on the bytes
received so far only. `emitted` is the whole output up to then. A record begins with a
header of five bytes, and as long as it has fewer bytes OpenSSL wants more and puts out
nothing, whatever these bytes are. -/
structure HandshakeOracle where
  result : List UInt8 → HandshakeResult
  emitted : List UInt8 → List UInt8
  consumed : List UInt8 → Nat
  read : List UInt8 → ReadLoop
  emitted_grows : ∀ xs ys, ∃ more, emitted (xs ++ ys) = emitted xs ++ more
  inside_header : ∀ bs, bs.length < 5 → result bs = .wantRead ∧ emitted bs = emitted []

def SslClient.completeSends (c : SslClient) (read : ReadLoop) : SslClient × List SslEffect :=
  feed (fun c callback => { c with sends := c.sends.tail }.runSendCallback callback {} read) c
    c.sends

structure Segmented where
  client : SslClient := {}
  received : List UInt8 := []

namespace HandshakeOracle

variable (o : HandshakeOracle)

/-- The call of `SSL_do_handshake` when `received` has grown to `now`. -/
def callAt (received now : List UInt8) : HandshakeCall :=
  ⟨o.result now, (o.emitted now).drop (o.emitted received).length, o.consumed now⟩

def handle (s : Segmented) (data : List UInt8) : Segmented × List SslEffect :=
  let now := s.received ++ data
  let r := s.client.onDataReceive data data.length (o.callAt s.received now) {} (o.read now)
  let q := r.1.completeSends (o.read now)
  (⟨q.1, now⟩, r.2 ++ q.2)

def run (pieces : List (List UInt8)) : Segmented × List SslEffect := feed o.handle {} pieces

def Fails (pieces : List (List UInt8)) : Prop := ∃ error, .handshakeFailed error ∈ (o.run pieces).2

def Completes (pieces : List (List UInt8)) : Prop := .handshakeComplete ∈ (o.run pieces).2

def Rejects (bs : List UInt8) : Prop :=
  match o.result bs with
  | .error _ | .shutDown _ => True
  | .wantRead => o.emitted bs = o.emitted []
  | _ => False

end HandshakeOracle

/-! ## One piece -/

namespace SslClient

variable {c : SslClient}

theorem mem_sslReadPieces {e : SslEffect} {offset : Nat} {pieces : List (List UInt8)}
    (h : e ∈ sslReadPieces offset pieces) :
    ∃ data offset error, e = .sslRead data offset error := by
  induction pieces generalizing offset with
  | nil => cases h
  | cons piece pieces ih =>
      rcases List.mem_cons.mp h with rfl | h
      · exact ⟨_, _, _, rfl⟩
      · exact ih h

theorem mem_readFromSsl {e : SslEffect} {read : ReadLoop} (h : e ∈ (c.readFromSsl read).2) :
    ∃ data offset error, e = .sslRead data offset error := by
  rcases List.mem_append.mp h with h | h
  · exact mem_sslReadPieces h
  · cases hlast : read.last with
    | zero => simp [hlast] at h
    | wantRead => simp [hlast] at h
    | error reason =>
        rw [hlast] at h
        exact ⟨_, _, _, List.mem_singleton.mp h⟩

/-- A finished handshake is told of, and no failed one. -/
theorem finishAndRead_effects (c : SslClient) (readPending : Nat) (read : ReadLoop) :
    .handshakeComplete ∈ (c.finishAndRead readPending read).2 ∧
      ∀ error, .handshakeFailed error ∉ (c.finishAndRead readPending read).2 := by
  unfold finishAndRead
  split
  · refine ⟨List.mem_append_left _ (List.mem_singleton.mpr rfl), ?_⟩
    intro error hmem
    rcases List.mem_append.mp hmem with h | h
    · cases List.mem_singleton.mp h
    · obtain ⟨_, _, _, heq⟩ := mem_readFromSsl h
      cases heq
  · refine ⟨List.mem_singleton.mpr rfl, ?_⟩
    intro error hmem
    cases List.mem_singleton.mp hmem

theorem finishAndRead_sends (c : SslClient) (readPending : Nat) (read : ReadLoop) :
    (c.finishAndRead readPending read).1.sends = c.sends := by
  unfold finishAndRead
  split <;> rfl

structure Waiting (c : SslClient) : Prop where
  notFinished : c.handshakeState ≠ .finished
  notFinishing : c.handshakeState ≠ .finishing
  sends : c.sends = []

/-- The result of a handshake call, and then of the sends. -/
def settle (c : SslClient) (result : HandshakeResult) (read : ReadLoop) :
    SslClient × List SslEffect :=
  let r := c.afterSslDoHandshake result {} read
  let q := r.1.completeSends read
  (q.1, r.2 ++ q.2)

theorem completeSends_nil (h : c.sends = []) (read : ReadLoop) :
    c.completeSends read = (c, []) := by
  rw [completeSends, h, feed_nil]

theorem completeSends_singleton {callback : SendCallback} (h : c.sends = [callback])
    (read : ReadLoop) :
    c.completeSends read = { c with sends := [] }.runSendCallback callback {} read := by
  simp [completeSends, h, feed_cons]

/-- An accepted send has completed. -/
theorem internalReadFromSllAndSend_complete (h : c.sends = []) (hout : c.writeBio ≠ [])
    (onSend : SendCallback) (read : ReadLoop) :
    (c.internalReadFromSllAndSend onSend {} read).2 = [.send c.writeBio] ∧
      (c.internalReadFromSllAndSend onSend {} read).1.completeSends read =
        { c with writeBio := [] }.runSendCallback onSend {} read := by
  have haccepted : c.internalReadFromSllAndSend onSend {} read =
      ({ c with writeBio := [], sends := [onSend] }, [.send c.writeBio]) := by
    simp [internalReadFromSllAndSend, hout, h]
  rw [haccepted]
  refine ⟨rfl, ?_⟩
  rw [completeSends_singleton rfl, ← h]

theorem settle_done (h : c.Waiting) (read : ReadLoop) :
    .handshakeComplete ∈ (c.settle .done read).2 ∧
      ∀ error, .handshakeFailed error ∉ (c.settle .done read).2 := by
  by_cases hout : c.writeBio = []
  · have hsettle : c.settle .done read = c.finishAndRead c.readBio.length read := by
      have hsends := (finishAndRead_sends c c.readBio.length read).trans h.sends
      simp only [settle, afterSslDoHandshake, hout, if_true, completeSends_nil hsends,
        List.append_nil]
    rw [hsettle]
    exact finishAndRead_effects c _ read
  · obtain ⟨hsend, hcomplete⟩ := @internalReadFromSllAndSend_complete
      { c with handshakeState := .finishing } h.sends hout (.finishing c.readBio.length) read
    obtain ⟨hmem, hnot⟩ := finishAndRead_effects
      { c with handshakeState := .finishing, writeBio := [] } c.readBio.length read
    have heffects : (c.settle .done read).2 =
        [.send c.writeBio] ++ (finishAndRead
          { c with handshakeState := .finishing, writeBio := [] } c.readBio.length read).2 := by
      simp only [settle, afterSslDoHandshake, hout, if_false, hsend, hcomplete]
      rfl
    rw [heffects]
    refine ⟨List.mem_append_right _ hmem, ?_⟩
    intro error hfailed
    rcases List.mem_append.mp hfailed with hf | hf
    · cases List.mem_singleton.mp hf
    · exact hnot error hf

def FailsOn (writeBio : List UInt8) : HandshakeResult → Prop
  | .error _ | .shutDown _ => True
  | .wantRead => writeBio = []
  | _ => False

/-- Any other result leaves the client waiting and tells of no finished handshake. -/
structure StaysWaiting (c : SslClient) (result : HandshakeResult)
    (r : SslClient × List SslEffect) : Prop where
  waiting : r.1.Waiting
  drained : c.writeBio = [] → r.1.writeBio = []
  incomplete : .handshakeComplete ∉ r.2
  fails_iff : (∃ error, .handshakeFailed error ∈ r.2) ↔ FailsOn c.writeBio result

theorem settle_of_quiet (h : c.Waiting) {result : HandshakeResult} {read : ReadLoop}
    {effects : List SslEffect} (hafter : c.afterSslDoHandshake result {} read = (c, effects)) :
    c.settle result read = (c, effects) := by
  simp only [settle, hafter, completeSends_nil h.sends, List.append_nil]

theorem settle_notDone (h : c.Waiting) {result : HandshakeResult} (hresult : result ≠ .done)
    (read : ReadLoop) : StaysWaiting c result (c.settle result read) := by
  cases result with
  | done => exact absurd rfl hresult
  | wantWrite =>
      rw [settle_of_quiet h rfl]
      exact ⟨h, id, by simp, by simp [FailsOn]⟩
  | shutDown reason =>
      rw [settle_of_quiet h rfl]
      exact ⟨h, id, by simp, by simp [FailsOn]⟩
  | wantRead =>
      by_cases hout : c.writeBio = []
      · have hquiet : c.afterSslDoHandshake .wantRead {} read =
            (c, [.handshakeFailed invalidDataError]) := by
          simp [afterSslDoHandshake, hout]
        rw [settle_of_quiet h hquiet]
        exact ⟨h, id, by simp, by simp [FailsOn, hout]⟩
      · obtain ⟨hsend, hcomplete⟩ :=
          internalReadFromSllAndSend_complete h.sends hout .handshake read
        have hsettle : c.settle .wantRead read =
            ({ c with writeBio := [] }, [.send c.writeBio]) := by
          simp only [settle, afterSslDoHandshake, hout, if_false, hsend, hcomplete]
          rfl
        rw [hsettle]
        exact ⟨⟨h.notFinished, h.notFinishing, h.sends⟩, fun _ => rfl, by simp,
          by simp [FailsOn, hout]⟩
  | error reason =>
      by_cases hout : c.writeBio = []
      · have hquiet : c.afterSslDoHandshake (.error reason) {} read =
            (c, [.handshakeFailed (opensslError reason)]) := by
          simp [afterSslDoHandshake, internalReadFromSllAndSend, hout]
        rw [settle_of_quiet h hquiet]
        exact ⟨h, id, by simp, by simp [FailsOn]⟩
      · obtain ⟨hsend, hcomplete⟩ := internalReadFromSllAndSend_complete h.sends hout .ignored read
        have hsettle : c.settle (.error reason) read =
            ({ c with writeBio := [] },
              [.send c.writeBio, .handshakeFailed (opensslError reason)]) := by
          simp only [settle, afterSslDoHandshake, hsend, hcomplete]
          rfl
        rw [hsettle]
        exact ⟨⟨h.notFinished, h.notFinishing, h.sends⟩, fun _ => rfl, by simp, by simp [FailsOn]⟩

end SslClient

namespace HandshakeOracle

variable {o : HandshakeOracle} {s : Segmented}

def fresh (o : HandshakeOracle) (received data : List UInt8) : List UInt8 :=
  (o.emitted (received ++ data)).drop (o.emitted received).length

def called (o : HandshakeOracle) (s : Segmented) (data : List UInt8) : SslClient :=
  (s.client.bioWrite data).sslDoHandshake (o.callAt s.received (s.received ++ data))

theorem called_waiting (h : s.client.Waiting) (data : List UInt8) :
    (o.called s data).Waiting := ⟨h.notFinished, h.notFinishing, h.sends⟩

theorem handle_waiting (h : s.client.Waiting) {data : List UInt8} (hne : data ≠ []) :
    o.handle s data =
      (⟨((o.called s data).settle (o.result (s.received ++ data)) (o.read (s.received ++ data))).1,
          s.received ++ data⟩,
        ((o.called s data).settle (o.result (s.received ++ data))
          (o.read (s.received ++ data))).2) := by
  have hpos := List.length_pos_iff.mpr hne
  have hsize : ¬ ((data.length : Int) ≤ 0) := by omega
  have hfin : (s.client.bioWrite data).handshakeState ≠ .finishing := h.notFinishing
  simp only [handle, SslClient.onDataReceive, h.notFinished, if_false, hsize, Int.toNat_natCast,
    List.take_length, SslClient.doHandshake, hfin]
  rfl

theorem handle_notDone (h : s.client.Waiting) {data : List UInt8} (hne : data ≠ [])
    (hresult : o.result (s.received ++ data) ≠ .done) :
    SslClient.StaysWaiting (o.called s data) (o.result (s.received ++ data))
      ((o.handle s data).1.client, (o.handle s data).2) := by
  rw [handle_waiting h hne]
  exact SslClient.settle_notDone (called_waiting h data) hresult _

theorem handle_received (s : Segmented) (data : List UInt8) :
    (o.handle s data).1.received = s.received ++ data := rfl

theorem called_writeBio (s : Segmented) (data : List UInt8) :
    (o.called s data).writeBio = s.client.writeBio ++ o.fresh s.received data := rfl

theorem fresh_eq_nil_iff (received data : List UInt8) :
    o.fresh received data = [] ↔ o.emitted (received ++ data) = o.emitted received := by
  obtain ⟨more, hmore⟩ := o.emitted_grows received data
  rw [fresh, hmore, List.drop_left]
  simp

/-- The output cannot come back to what it was. -/
theorem emitted_between {received xs ys : List UInt8}
    (h : o.emitted (received ++ xs ++ ys) = o.emitted received) :
    o.emitted (received ++ xs) = o.emitted received := by
  obtain ⟨more, hmore⟩ := o.emitted_grows received xs
  obtain ⟨rest, hrest⟩ := o.emitted_grows (received ++ xs) ys
  rw [hrest, hmore, List.append_assoc] at h
  have hnil := List.append_eq_nil_iff.mp (List.append_right_eq_self.mp h)
  rw [hmore, hnil.1, List.append_nil]

/-! ## Whole runs -/

variable {pieces : List (List UInt8)} {p : List UInt8} {stream : List UInt8}

def NeverDone (o : HandshakeOracle) (received bytes : List UInt8) : Prop :=
  ∀ xs ys, bytes = xs ++ ys → xs ≠ [] → o.result (received ++ xs) ≠ .done

theorem NeverDone.tail {received xs ys : List UInt8} (h : o.NeverDone received (xs ++ ys)) :
    o.NeverDone (received ++ xs) ys := by
  intro us vs heq hne
  rw [List.append_assoc]
  exact h (xs ++ us) vs (by rw [heq, List.append_assoc]) (by simp [hne])

theorem feed_neverDone (h : s.client.Waiting) (hne : ∀ p ∈ pieces, p ≠ [])
    (hnever : o.NeverDone s.received pieces.flatten) :
    .handshakeComplete ∉ (feed o.handle s pieces).2 := by
  induction pieces generalizing s with
  | nil => exact List.not_mem_nil
  | cons p ps ih =>
      have hp := hne p List.mem_cons_self
      rw [List.flatten_cons] at hnever
      have hstays := handle_notDone h hp (hnever p ps.flatten rfl hp)
      have hrec := @ih (o.handle s p).1 hstays.waiting
        (fun q hq => hne q (List.mem_cons_of_mem p hq)) hnever.tail
      intro hmem
      rcases List.mem_append.mp hmem with hm | hm
      · exact hstays.incomplete hm
      · exact hrec hm

/-- The answer to all bytes, those received before `s` included, is a failure, and nothing
is put out on the way to it. -/
def RejectsFrom (o : HandshakeOracle) (s : Segmented) (bytes : List UInt8) : Prop :=
  match o.result (s.received ++ bytes) with
  | .error _ | .shutDown _ => True
  | .wantRead =>
      s.client.writeBio = [] ∧ o.emitted (s.received ++ bytes) = o.emitted s.received
  | _ => False

theorem RejectsFrom.failsOn (h : o.RejectsFrom s p) :
    SslClient.FailsOn (o.called s p).writeBio (o.result (s.received ++ p)) := by
  unfold RejectsFrom at h
  cases hresult : o.result (s.received ++ p) with
  | error reason => trivial
  | shutDown reason => trivial
  | wantRead =>
      rw [hresult] at h
      rw [SslClient.FailsOn, called_writeBio, h.1, (fresh_eq_nil_iff _ _).mpr h.2,
        List.append_nil]
  | done => rw [hresult] at h; exact h
  | wantWrite => rw [hresult] at h; exact h

/-- It stays so behind a piece that leaves the client waiting. -/
theorem RejectsFrom.tail {p rest : List UInt8} (h : o.RejectsFrom s (p ++ rest))
    (hdrained : (o.called s p).writeBio = [] → (o.handle s p).1.client.writeBio = []) :
    o.RejectsFrom (o.handle s p).1 rest := by
  unfold RejectsFrom at h ⊢
  rw [handle_received, List.append_assoc]
  cases hresult : o.result (s.received ++ (p ++ rest)) with
  | error reason => trivial
  | shutDown reason => trivial
  | wantRead =>
      rw [hresult] at h
      obtain ⟨hempty, hsame⟩ := h
      have hbetween : o.emitted (s.received ++ p) = o.emitted s.received :=
        emitted_between (by rw [List.append_assoc]; exact hsame)
      refine ⟨hdrained ?_, hsame.trans hbetween.symm⟩
      rw [called_writeBio, hempty, (fresh_eq_nil_iff _ _).mpr hbetween, List.append_nil]
  | done => rw [hresult] at h; exact h
  | wantWrite => rw [hresult] at h; exact h

/-- Bytes that are rejected as a whole are rejected at their last piece. -/
theorem feed_rejects (h : s.client.Waiting) (hsome : pieces ≠ []) (hne : ∀ p ∈ pieces, p ≠ [])
    (hnever : o.NeverDone s.received pieces.flatten) (hrejects : o.RejectsFrom s pieces.flatten) :
    ∃ error, .handshakeFailed error ∈ (feed o.handle s pieces).2 := by
  induction pieces generalizing s with
  | nil => exact absurd rfl hsome
  | cons p ps ih =>
      have hp := hne p List.mem_cons_self
      rw [List.flatten_cons] at hnever hrejects
      have hstays := handle_notDone h hp (hnever p ps.flatten rfl hp)
      by_cases hlast : ps = []
      · subst hlast
        rw [List.flatten_nil, List.append_nil] at hrejects
        obtain ⟨error, hmem⟩ := hstays.fails_iff.mpr hrejects.failsOn
        exact ⟨error, List.mem_append_left _ hmem⟩
      · obtain ⟨error, hmem⟩ := @ih (o.handle s p).1 hstays.waiting hlast
          (fun q hq => hne q (List.mem_cons_of_mem p hq)) hnever.tail
          (hrejects.tail hstays.drained)
        exact ⟨error, List.mem_append_right _ hmem⟩

theorem Rejects.start (h : o.Rejects stream) : o.RejectsFrom {} stream := by
  change match o.result stream with
    | .error _ | .shutDown _ => True
    | .wantRead => ({} : SslClient).writeBio = [] ∧ o.emitted stream = o.emitted []
    | _ => False
  unfold Rejects at h
  split at h
  · trivial
  · trivial
  · exact ⟨rfl, h⟩
  · exact h.elim

theorem waiting_start : ({} : Segmented).client.Waiting := ⟨by decide, by decide, rfl⟩

theorem run_cons (p : List UInt8) (ps : List (List UInt8)) :
    (o.run (p :: ps)).2 = (o.handle {} p).2 ++ (feed o.handle (o.handle {} p).1 ps).2 := rfl

theorem run_whole (p : List UInt8) : (o.run [p]).2 = (o.handle {} p).2 := by
  rw [run_cons, feed_nil, List.append_nil]

/-- A cut behind the first byte always fails: one byte is no header. -/
theorem fails_first_byte (b : UInt8) (ps : List (List UInt8)) : o.Fails ([b] :: ps) := by
  obtain ⟨hresult, hemitted⟩ := o.inside_header [b] (by simp)
  have hwants : o.result [b] ≠ .done := by
    rw [hresult]
    decide
  have hstays := @handle_notDone o {} waiting_start [b] (by simp) hwants
  obtain ⟨error, hmem⟩ := hstays.fails_iff.mpr (by
    rw [show o.result (({} : Segmented).received ++ [b]) = .wantRead from hresult]
    exact (fresh_eq_nil_iff [] [b]).mpr hemitted)
  exact ⟨error, List.mem_append_left _ hmem⟩

theorem completes_of_done (hne : p ≠ []) (hdone : o.result p = .done) (ps : List (List UInt8)) :
    o.Completes (p :: ps) := by
  have hmem : .handshakeComplete ∈ (o.handle {} p).2 := by
    rw [handle_waiting waiting_start hne]
    rw [show o.result (({} : Segmented).received ++ p) = .done from hdone]
    exact (SslClient.settle_done (called_waiting waiting_start p) _).1
  exact List.mem_append_left _ hmem

/-- Given in one piece, bytes fail exactly if they are rejected. -/
theorem fails_whole_iff (hne : p ≠ []) : o.Fails [p] ↔ o.Rejects p := by
  by_cases hdone : o.result p = .done
  · have hnot := (SslClient.settle_done (@called_waiting o {} waiting_start p) (o.read p)).2
    refine iff_of_false ?_ (by simp [Rejects, hdone])
    rintro ⟨error, hmem⟩
    rw [run_whole, handle_waiting waiting_start hne] at hmem
    rw [show o.result (({} : Segmented).received ++ p) = .done from hdone] at hmem
    exact hnot error hmem
  · have hstays := @handle_notDone o {} waiting_start p hne hdone
    rw [Fails, run_whole]
    refine hstays.fails_iff.trans ?_
    change SslClient.FailsOn (o.fresh [] p) (o.result p) ↔ _
    unfold Rejects
    cases o.result p with
    | wantRead => exact fresh_eq_nil_iff [] p
    | error reason => exact Iff.rfl
    | shutDown reason => exact Iff.rfl
    | done => exact Iff.rfl
    | wantWrite => exact Iff.rfl

theorem not_completes_whole (hne : p ≠ []) (hnot : o.result p ≠ .done) : ¬ o.Completes [p] := by
  rw [Completes, run_whole]
  exact (@handle_notDone o {} waiting_start p hne hnot).incomplete

theorem not_completes_of_neverDone (hcut : IsCut stream pieces) (hnever : NeverDone o [] stream) :
    ¬ o.Completes pieces := by
  refine feed_neverDone waiting_start hcut.nonempty ?_
  rw [hcut.flatten_eq]
  exact hnever

/-- Bytes that fail as a whole fail in every cut if no beginning finishes the handshake. -/
theorem fails_of_rejects (hcut : IsCut stream pieces) (hne : stream ≠ [])
    (hnever : NeverDone o [] stream) (hrejects : o.Rejects stream) : o.Fails pieces := by
  have hsome : pieces ≠ [] := by
    rintro rfl
    exact hne hcut.flatten_eq.symm
  refine feed_rejects waiting_start hsome hcut.nonempty ?_ ?_
  · rw [hcut.flatten_eq]
    exact hnever
  · rw [hcut.flatten_eq]
    exact hrejects.start

/-- The first byte on its own fails, so bytes that are not alone have to fail as a whole. -/
theorem rejects_of_fails_alike {b : UInt8} {rest : List UInt8} (hrest : rest ≠ [])
    (hsame : ∀ xs ys, IsCut (b :: rest) xs → IsCut (b :: rest) ys → (o.Fails xs ↔ o.Fails ys)) :
    o.Rejects (b :: rest) := by
  have hne : b :: rest ≠ [] := List.cons_ne_nil b rest
  have hfirst : IsCut (b :: rest) [[b], rest] :=
    (IsCut.whole (List.cons_ne_nil b [])).append (IsCut.whole hrest)
  rw [← fails_whole_iff hne]
  exact (hsame _ _ hfirst (IsCut.whole hne)).mp (fails_first_byte b [rest])

/-- A beginning that finishes the handshake would finish it in one cut only. -/
theorem neverDone_of_completes_alike (hnot : o.result stream ≠ .done)
    (hsame : ∀ xs ys, IsCut stream xs → IsCut stream ys → (o.Completes xs ↔ o.Completes ys)) :
    NeverDone o [] stream := by
  intro xs ys heq hne hdone
  have hstream : stream ≠ [] := by
    rw [heq]
    exact List.append_ne_nil_of_left_ne_nil hne ys
  by_cases hys : ys = []
  · rw [hys, List.append_nil] at heq
    rw [heq] at hnot
    exact hnot hdone
  · have hcut : IsCut stream [xs, ys] := by
      rw [heq]
      exact (IsCut.whole hne).append (IsCut.whole hys)
    exact not_completes_whole hstream hnot
      ((hsame _ _ hcut (IsCut.whole hstream)).mp (completes_of_done hne hdone [ys]))

/-- The outcome of a handshake does not depend on the cut exactly for streams of one byte
at most, and for streams that no beginning of which finishes the handshake and that
fail as a whole. -/
theorem handshake_segmentation_iff (o : HandshakeOracle) (stream : List UInt8) :
    (∀ xs ys, IsCut stream xs → IsCut stream ys →
        (o.Fails xs ↔ o.Fails ys) ∧ (o.Completes xs ↔ o.Completes ys)) ↔
      stream.length ≤ 1 ∨
        ((∀ xs ys, stream = xs ++ ys → xs ≠ [] → o.result xs ≠ .done) ∧ o.Rejects stream) := by
  constructor
  · intro hsame
    cases stream with
    | nil => exact .inl (Nat.zero_le 1)
    | cons b rest =>
        by_cases hrest : rest = []
        · exact .inl (by simp [hrest])
        · right
          have hrejects : o.Rejects (b :: rest) :=
            rejects_of_fails_alike hrest fun xs ys hx hy => (hsame xs ys hx hy).1
          have hnot : o.result (b :: rest) ≠ .done := by
            intro hdone
            simp [Rejects, hdone] at hrejects
          exact ⟨neverDone_of_completes_alike hnot fun xs ys hx hy => (hsame xs ys hx hy).2,
            hrejects⟩
  · intro h xs ys hx hy
    by_cases hshort : stream.length ≤ 1
    · rw [hx.unique hy hshort]
      exact ⟨Iff.rfl, Iff.rfl⟩
    · obtain ⟨hnever, hrejects⟩ := h.resolve_left hshort
      have hne : stream ≠ [] := by
        rintro rfl
        exact hshort (Nat.zero_le 1)
      exact ⟨iff_of_true (fails_of_rejects hx hne hnever hrejects)
          (fails_of_rejects hy hne hnever hrejects),
        iff_of_false (not_completes_of_neverDone hx hnever)
          (not_completes_of_neverDone hy hnever)⟩

/-! A server whose one record ends the handshake. -/

def serverRecord : List UInt8 := [22, 3, 3, 0, 1, 0xAA]

theorem length_of_take {bs : List UInt8} (h : bs.take 6 = serverRecord) : 6 ≤ bs.length := by
  have hlen := congrArg List.length h
  rw [List.length_take] at hlen
  change min 6 bs.length = 6 at hlen
  omega

theorem take_append_of_take {xs : List UInt8} (h : xs.take 6 = serverRecord) (ys : List UInt8) :
    (xs ++ ys).take 6 = serverRecord := by
  rw [List.take_append_of_le_length (length_of_take h), h]

def serverOracle : HandshakeOracle where
  result bs := if bs.take 6 = serverRecord then .done else .wantRead
  emitted bs := if bs.take 6 = serverRecord then [1] else []
  consumed _ := 6
  read _ := ⟨[], .wantRead, 0⟩
  emitted_grows xs ys := by
    by_cases h : xs.take 6 = serverRecord
    · exact ⟨[], by simp [h, take_append_of_take h ys]⟩
    · exact ⟨_, by rw [if_neg h, List.nil_append]⟩
  inside_header bs hlt := by
    have hnot : bs.take 6 ≠ serverRecord := by
      intro h
      have hsix := length_of_take h
      omega
    exact ⟨if_neg hnot, if_neg hnot⟩

/-- In one piece the handshake is completed; with the first byte on its own it is reported
as failed before. -/
theorem handshake_depends_on_cut :
    IsCut serverRecord [serverRecord] ∧ IsCut serverRecord [[22], [3, 3, 0, 1, 0xAA]] ∧
      (serverOracle.run [serverRecord]).2 = [.send [1], .handshakeComplete] ∧
      (serverOracle.run [[22], [3, 3, 0, 1, 0xAA]]).2 =
        [.handshakeFailed invalidDataError, .send [1], .handshakeComplete] ∧
      ¬ (serverOracle.Fails [serverRecord] ↔ serverOracle.Fails [[22], [3, 3, 0, 1, 0xAA]]) := by
  have hwhole : (serverOracle.run [serverRecord]).2 = [.send [1], .handshakeComplete] := by
    decide
  have hcut : (serverOracle.run [[22], [3, 3, 0, 1, 0xAA]]).2 =
      [.handshakeFailed invalidDataError, .send [1], .handshakeComplete] := by
    decide
  refine ⟨IsCut.whole (by decide), ⟨rfl, by decide⟩, hwhole, hcut, ?_⟩
  rw [Fails, Fails, hwhole, hcut]
  simp

end HandshakeOracle

end TarmIo.Net.Tls
