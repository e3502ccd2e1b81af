import TarmIo.Net.Tcp.Ownership

/-!
# The stream offsets of a `TcpClient`

`m_data_offset` counts the bytes of all connections of the client and is never set back. The
chunks of one connection carry the offsets of that connection exactly as long as no
connection before it has received anything.
-/

namespace TarmIo.Net.Tcp

open Foundation

def Consecutive : UInt64 → List (UInt64 × UInt64) → Prop
  | _, [] => True
  | start, (offset, size) :: rest => offset = start ∧ Consecutive (start + size) rest

def total : List (UInt64 × UInt64) → UInt64
  | [] => 0
  | (_, size) :: rest => size + total rest

theorem total_concat (chunks : List (UInt64 × UInt64)) (offset size : UInt64) :
    total (chunks ++ [(offset, size)]) = total chunks + size := by
  induction chunks with
  | nil => simp [total]
  | cons chunk chunks ih => simp [total, ih, UInt64.add_assoc]

theorem consecutive_concat (start : UInt64) (chunks : List (UInt64 × UInt64))
    (offset size : UInt64) :
    Consecutive start (chunks ++ [(offset, size)]) ↔
      Consecutive start chunks ∧ offset = start + total chunks := by
  induction chunks generalizing start with
  | nil => simp [Consecutive, total]
  | cons chunk chunks ih => simp [Consecutive, total, ih, and_assoc, UInt64.add_assoc]

namespace TcpClient

variable {c c' : TcpClient} {l m : Ledger}

/-! ## A read -/

variable {i : Nat} {size : UInt64}

/-- What a read of `size` bytes from stream `i` leaves alone and what it counts. -/
structure Reads (l m : Ledger) (size : UInt64) : Prop where
  tcpStream : m.tcpStream = l.tcpStream
  receiveCallback : m.receiveCallback = l.receiveCallback
  scheduled : m.scheduled = l.scheduled
  created : m.created = l.created
  shutdowns : m.shutdowns = l.shutdowns
  bytesBefore : m.bytesBefore = l.bytesBefore
  counted : m.dataOffset + m.delivering = l.dataOffset + l.delivering + size

def Delivers (c : TcpClient) (size : UInt64) : Prop :=
  size ≠ 0 ∧ c.receiveCallback ≠ .null

instance (c : TcpClient) (size : UInt64) : Decidable (c.Delivers size) :=
  inferInstanceAs (Decidable (_ ∧ _))

theorem onData_reads (hrest : c.running = none) (i : Nat) (size : UInt64) :
    Reads c.ledger (c.onData i size).ledger size := by
  unfold onData
  split
  · rename_i hzero
    exact ⟨rfl, rfl, rfl, rfl, rfl, rfl, by simp [ledger, advance, hzero]⟩
  · cases hcallback : c.receiveCallback with
    | null =>
        refine ⟨rfl, rfl, rfl, rfl, rfl, rfl, ?_⟩
        simp [invoke, ledger, advance, hrest]
    | silent =>
        refine ⟨rfl, rfl, rfl, rfl, rfl, rfl, ?_⟩
        simp [invoke, ledger, log, advance, hrest]
    | user =>
        refine ⟨rfl, rfl, rfl, rfl, rfl, rfl, ?_⟩
        simp [invoke, ledger, log, hrest, Frame.size]

theorem onData_chunks_of_not_delivers (h : ¬ c.Delivers size) :
    (c.onData i size).ledger.chunks = c.ledger.chunks := by
  unfold onData
  split
  · rfl
  · rename_i hsize
    have hnull : c.receiveCallback = .null := by simpa [Delivers, hsize] using h
    rw [hnull]
    rfl

theorem onData_chunks (h : c.Delivers size) (j : Nat) :
    (c.onData i size).ledger.chunks j =
      if j = i then c.ledger.chunks i ++ [(c.dataOffset, size)] else c.ledger.chunks j := by
  have hlogged : (c.log (.receive i c.dataOffset size)).ledger.chunks j =
      if j = i then c.ledger.chunks i ++ [(c.dataOffset, size)] else c.ledger.chunks j := by
    by_cases hj : j = i
    · subst hj
      simp [ledger, log, Call.chunk]
    · simp [ledger, log, Call.chunk, hj, Ne.symm hj]
  rw [← hlogged, onData, if_neg h.1]
  cases hcallback : c.receiveCallback with
  | null => exact absurd hcallback h.2
  | silent => rfl
  | user => rfl

/-! ## One connection after the other -/

variable {e : Event}

/-- The connection before has ended, and no other one was asked for. -/
def Ended (c : TcpClient) : Prop :=
  c.isOpen = false ∧ c.scheduled = [] ∧ ∀ i < c.created, (c.streams i).shutdowns = 0

/-- The runs that connect again only when the connection before has ended. A reset ends one when
libuv takes the stream. -/
def Sequential (c : TcpClient) : Event → Prop
  | .call (.connect _) => c.Ended
  | .call (.closeWithReset accepted) => accepted = true ∨ c.tcpStream = none
  | _ => True

instance (c : TcpClient) : Decidable c.Ended :=
  inferInstanceAs (Decidable (_ ∧ _ ∧ _))

instance (c : TcpClient) (e : Event) : Decidable (c.Sequential e) := by
  rcases e with (_ | _ | _ | _ | _) | _ | _ <;> unfold Sequential <;> infer_instance

/-- At most one connect is scheduled, and then the client has neither a stream nor a shutdown
request. -/
structure InTurn (l : Ledger) : Prop where
  waiting : l.scheduled = [] ∨ l.tcpStream = none ∧ ∃ args, l.scheduled = [args]
  pending : ∀ i, 0 < l.shutdowns i →
    i < l.created ∧ l.scheduled = [] ∧ (l.tcpStream = none ∨ l.tcpStream = some i)

theorem InTurn.steady (h : InTurn l) (hsteady : l.Steady m) : InTurn m := by
  refine ⟨?_, fun i hi => ?_⟩
  · rw [hsteady.scheduled]
    refine h.waiting.imp id (And.imp (fun hnone => ?_) id)
    rcases hsteady.tcpStream with hsame | hgone
    · exact hsame.trans hnone
    · exact hgone
  · obtain ⟨hmade, hscheduled, hstream⟩ := h.pending i (Nat.lt_of_lt_of_le hi (hsteady.shutdowns i))
    refine ⟨hsteady.created ▸ hmade, hsteady.scheduled.trans hscheduled, ?_⟩
    rcases hsteady.tcpStream with hsame | hgone
    · exact hsame ▸ hstream
    · exact .inl hgone

theorem InTurn.keepsHandles (h : InTurn c.ledger) (hsequential : c.Sequential e) :
    c.KeepsHandles e := by
  cases e with
  | leave => trivial
  | call user =>
      cases user with
      | connect args => exact hsequential.1
      | closeWithReset accepted => exact hsequential
      | close | shutdown accepted | sendData buffer size => trivial
  | loop completion =>
      cases completion with
      | scheduled uv =>
          rcases h.waiting with hnone | ⟨hfree, _⟩
          · exact .inr (by simp [show c.scheduled = [] from hnone])
          · exact .inl hfree
      | connected | data | failure | shutdown | closed => trivial

/-- When a connect is scheduled there is no other one and no shutdown request. -/
theorem InTurn.scheduled (h : InTurn c.ledger) {args : ConnectArgs} {rest : List ConnectArgs}
    (hscheduled : c.scheduled = args :: rest) :
    rest = [] ∧ ∀ i, (c.streams i).shutdowns = 0 := by
  constructor
  · rcases h.waiting with hnone | ⟨_, other, hone⟩
    · exact nomatch hscheduled.symm.trans hnone
    · exact (List.cons.inj (hscheduled.symm.trans hone)).2
  · intro i
    by_contra hi
    exact nomatch hscheduled.symm.trans (h.pending i (Nat.pos_of_ne_zero hi)).2.1

theorem step_inTurn (h : InTurn c.ledger) (howns : c.Owns False) (hsequential : c.Sequential e)
    (hstep : c.step e = some c') : InTurn c'.ledger := by
  rcases step_cases hstep with hsteady | ⟨args, rfl, rfl⟩ | ⟨i, rfl, _, hstream, rfl⟩ |
    ⟨uv, args, rest, rfl, hrest, hscheduled, rfl⟩ | ⟨i, size, rfl, hrest, _, rfl⟩ |
    ⟨i, size, rfl, _, rfl⟩
  · exact h.steady hsteady
  · -- A connect gives the stream up, and nothing else was asked for.
    obtain ⟨_, hnone, hshutdowns⟩ := hsequential
    refine ⟨.inr ⟨tearDown_tcpStream c, args, by simp [ledger, connect, hnone]⟩, fun i hi => ?_⟩
    have hbefore := Nat.lt_of_lt_of_le hi ((steady_tearDown c).shutdowns i)
    exact absurd (hshutdowns i (h.pending i hbefore).1) (Nat.ne_of_gt hbefore)
  · -- The shutdown request is for the current stream.
    have hscheduled : c.scheduled = [] := by
      rcases h.waiting with hnone | ⟨hfree, _⟩
      · exact hnone
      · cases hfree.symm.trans hstream
    refine ⟨.inl hscheduled, fun j hj => ?_⟩
    by_cases hji : j = i
    · subst hji
      exact ⟨(howns.current j hstream).2, hscheduled, .inr hstream⟩
    · refine h.pending j ?_
      simpa [ledger, onStream, Function.update_of_ne hji] using hj
  · obtain ⟨rfl, hnone⟩ := h.scheduled hscheduled
    cases hdefined : args.endpointDefined with
    | false =>
        have hsteady := steady_connectImpl (c := { c with scheduled := [] })
          (by simp [ledger, hrest]) hdefined uv
        refine ⟨.inl hsteady.scheduled, fun i hi => ?_⟩
        exact absurd (hnone i) (Nat.ne_of_gt (Nat.lt_of_lt_of_le hi (hsteady.shutdowns i)))
    | true =>
        have hnew := connectImpl_renewed { c with scheduled := [] } args hdefined uv
        refine ⟨.inl hnew.scheduled, fun i hi => ?_⟩
        exact absurd (hnone i) (Nat.ne_of_gt (Nat.lt_of_lt_of_le hi (hnew.shutdowns_le i)))
  · have hreads := onData_reads (c := c.resetConnectReq none) hrest i size
    refine ⟨?_, fun j hj => ?_⟩
    · rw [hreads.scheduled, hreads.tcpStream]
      exact h.waiting
    · rw [hreads.created, hreads.scheduled, hreads.tcpStream]
      exact h.pending j (hreads.shutdowns ▸ hj)
  · exact ⟨h.waiting, h.pending⟩

/-! ## What the offset counts -/

/-- The offset, with the chunk whose callback runs, counts the chunks of the current stream from
what it was when the stream was made. -/
structure Counts (l : Ledger) : Prop where
  current : ∀ i, l.tcpStream = some i → l.receiveCallback ≠ .null →
    l.dataOffset + l.delivering = l.bytesBefore i + total (l.chunks i)
  fresh : ∀ i, l.created ≤ i → l.chunks i = []

theorem Counts.steady (h : Counts l) (hsteady : l.Steady m) : Counts m := by
  refine ⟨fun i hstream hcallback => ?_, fun i hi => ?_⟩
  · rw [hsteady.dataOffset, hsteady.delivering, hsteady.bytesBefore, hsteady.chunks]
    refine h.current i ?_ ?_
    · rcases hsteady.tcpStream with hsame | hnone
      · exact hsame.symm.trans hstream
      · exact nomatch hnone.symm.trans hstream
    · rcases hsteady.receiveCallback with hsame | hnull
      · rwa [hsame] at hcallback
      · exact absurd hnull hcallback
  · rw [hsteady.chunks]
    exact h.fresh i (hsteady.created ▸ hi)

theorem Counts.renewed (h : Counts c.ledger) (hrest : c.running = none) {d : TcpClient}
    (hnew : c.Renewed d) : Counts d.ledger := by
  refine ⟨fun i hstream _ => ?_, fun i hi => ?_⟩
  · obtain rfl : c.created = i := Option.some.inj (hnew.tcpStream.symm.trans hstream)
    have hdelivering : d.ledger.delivering = 0 := by
      rcases hnew.running with hsame | hfailed
      · simp [ledger, hsame, hrest]
      · simp [ledger, hfailed, Frame.size]
    have hempty : c.ledger.chunks c.created = [] := h.fresh c.created (Nat.le_refl _)
    rw [hdelivering, hnew.chunks, hempty]
    show d.dataOffset + 0 = (d.streams c.created).bytesBefore + 0
    rw [hnew.bytesBefore, hnew.dataOffset]
  · have hmade : d.created ≤ i := hi
    rw [hnew.created] at hmade
    rw [hnew.chunks]
    exact h.fresh i (Nat.le_of_succ_le hmade)

theorem Counts.onData (h : Counts c.ledger) (howns : c.Owns False) (hrest : c.running = none)
    (hreading : (c.streams i).reading = true) : Counts (c.onData i size).ledger := by
  have hreads := onData_reads hrest i size
  have hstream := howns.current_of_reading hreading
  by_cases hdelivers : c.Delivers size
  · refine ⟨fun j hj hcallback => ?_, fun j hj => ?_⟩
    · rw [hreads.tcpStream] at hj
      obtain rfl : i = j := Option.some.inj (hstream.symm.trans hj)
      rw [hreads.counted, hreads.bytesBefore, onData_chunks hdelivers, if_pos rfl, total_concat,
        ← UInt64.add_assoc, ← h.current i hj (hreads.receiveCallback ▸ hcallback)]
    · rw [hreads.created] at hj
      have hne : j ≠ i := Nat.ne_of_gt (Nat.lt_of_lt_of_le (howns.current i hstream).2 hj)
      rw [onData_chunks hdelivers, if_neg hne]
      exact h.fresh j hj
  · have hsame := onData_chunks_of_not_delivers (i := i) hdelivers
    refine ⟨fun j hj hcallback => ?_, fun j hj => ?_⟩
    · rw [hreads.receiveCallback] at hcallback
      have hzero : size = 0 := by
        by_contra hsize
        exact hdelivers ⟨hsize, hcallback⟩
      rw [hreads.counted, hreads.bytesBefore, hsame, hzero, UInt64.add_zero]
      exact h.current j (hreads.tcpStream ▸ hj) hcallback
    · rw [hsame]
      exact h.fresh j (hreads.created ▸ hj)

theorem step_counts (h : Counts c.ledger) (howns : c.Owns False) (hstep : c.step e = some c') :
    Counts c'.ledger := by
  rcases step_cases hstep with hsteady | ⟨args, rfl, rfl⟩ | ⟨i, rfl, _, hstream, rfl⟩ |
    ⟨uv, args, rest, rfl, hrest, hscheduled, rfl⟩ | ⟨i, size, rfl, hrest, hreading, rfl⟩ |
    ⟨i, size, rfl, hrunning, rfl⟩
  · exact h.steady hsteady
  · have hgone := h.steady (steady_tearDown c)
    exact ⟨hgone.current, hgone.fresh⟩
  · refine ⟨fun j hj hcallback => ?_, h.fresh⟩
    rw [onStream_bytesBefore rfl]
    exact h.current j hj hcallback
  · have hbefore : Counts (ledger { c with scheduled := rest }) := ⟨h.current, h.fresh⟩
    cases hdefined : args.endpointDefined with
    | false => exact hbefore.steady (steady_connectImpl (by simp [ledger, hrest]) hdefined uv)
    | true =>
        exact hbefore.renewed hrest
          (connectImpl_renewed { c with scheduled := rest } args hdefined uv)
  · exact Counts.onData (c := c.resetConnectReq none) h (howns.read hreading) hrest hreading
  · refine ⟨fun j hj hcallback => ?_, h.fresh⟩
    have hcounted := h.current j hj hcallback
    simpa [ledger, advance, hrunning, Frame.size] using hcounted

/-! ## Runs -/

def OffsetsPerConnection (c : TcpClient) : Prop :=
  ∀ i, Consecutive 0 (c.calls.filterMap (Call.chunk i))

/-- Data is delivered only from a stream that was made before the client had received any. -/
def NothingBefore (c : TcpClient) : Event → Prop
  | .loop (.data i size) => c.Delivers size → (c.streams i).bytesBefore = 0
  | _ => True

instance (c : TcpClient) (e : Event) : Decidable (c.NothingBefore e) := by
  unfold NothingBefore
  split <;> infer_instance

theorem exists_of_not_nothingBefore (h : ¬ c.NothingBefore e) :
    ∃ i size, e = .loop (.data i size) ∧ c.Delivers size ∧ (c.streams i).bytesBefore ≠ 0 := by
  cases e with
  | call user => exact absurd trivial h
  | leave => exact absurd trivial h
  | loop completion =>
      cases completion with
      | data i size => exact ⟨i, size, rfl, Classical.not_imp.mp h⟩
      | scheduled | connected | failure | shutdown | closed => exact absurd trivial h

theorem Counts.dataOffset (h : Counts c.ledger) (howns : c.Owns False) (hrest : c.running = none)
    (hreading : (c.streams i).reading = true) (hdelivers : c.Delivers size) :
    c.dataOffset = (c.streams i).bytesBefore + total (c.ledger.chunks i) := by
  have hcounted := h.current i (howns.current_of_reading hreading) hdelivers.2
  simpa [ledger, hrest] using hcounted

theorem step_chunks (hstep : c.step e = some c') :
    c'.ledger.chunks = c.ledger.chunks ∨
      ∃ i size, e = .loop (.data i size) ∧ c.running = none ∧ (c.streams i).reading = true ∧
        c.Delivers size ∧ c' = (c.resetConnectReq none).onData i size := by
  rcases step_cases hstep with hsteady | ⟨args, rfl, rfl⟩ | ⟨i, rfl, _, _, rfl⟩ |
    ⟨uv, args, rest, rfl, hrest, _, rfl⟩ | ⟨i, size, rfl, hrest, hreading, rfl⟩ |
    ⟨i, size, rfl, _, rfl⟩
  · exact .inl hsteady.chunks
  · exact .inl (steady_tearDown c).chunks
  · exact .inl rfl
  · cases hdefined : args.endpointDefined with
    | false =>
        have hsteady := steady_connectImpl (c := { c with scheduled := rest })
          (by simp [ledger, hrest]) hdefined uv
        exact .inl hsteady.chunks
    | true =>
        exact .inl (connectImpl_renewed { c with scheduled := rest } args hdefined uv).chunks
  · by_cases hdelivers : c.Delivers size
    · exact .inr ⟨i, size, rfl, hrest, hreading, hdelivers, rfl⟩
    · exact .inl (onData_chunks_of_not_delivers (c := c.resetConnectReq none) hdelivers)
  · exact .inl rfl

/-- A delivered chunk continues its connection exactly when the connection is the first that
received anything. -/
theorem onData_offsets_iff (h : OffsetsPerConnection c) (hcounts : Counts c.ledger)
    (howns : c.Owns False) (hrest : c.running = none) (hreading : (c.streams i).reading = true)
    (hdelivers : c.Delivers size) :
    (c.onData i size).OffsetsPerConnection ↔ (c.streams i).bytesBefore = 0 := by
  have hoffset := hcounts.dataOffset howns hrest hreading hdelivers
  have hchunks := onData_chunks (i := i) hdelivers
  constructor
  · intro hafter
    have hi := hafter i
    rw [show List.filterMap (Call.chunk i) _ = _ from hchunks i, if_pos rfl,
      consecutive_concat, UInt64.zero_add, hoffset] at hi
    simpa using hi.2
  · intro hzero j
    rw [show List.filterMap (Call.chunk j) _ = _ from hchunks j]
    split
    · rw [consecutive_concat]
      exact ⟨h i, by rw [hoffset, hzero]⟩
    · exact h j

theorem start_inTurn : InTurn ({} : TcpClient).ledger := ⟨.inl rfl, nofun⟩

theorem start_counts : Counts ({} : TcpClient).ledger := ⟨nofun, fun _ _ => rfl⟩

/-- Over one connection after the other, the offsets are per connection exactly when every stream
that delivers data was made before the client had received any. -/
theorem offsets_per_connection_iff {es : List Event}
    (h : (exec (restrict Sequential step) {} es).isSome = true) :
    Throughout (restrict Sequential step) OffsetsPerConnection {} es ↔
      Along (restrict Sequential step) NothingBefore {} es := by
  obtain ⟨t, ht⟩ := Option.isSome_iff_exists.mp h
  refine throughout_iff_along
    (fun c (hc : (c.Owns False ∧ InTurn c.ledger ∧ Counts c.ledger) ∧ c.OffsetsPerConnection) =>
      hc.2) ?_ ?_ ?_ ht
  · rintro c e c' ⟨⟨howns, hturn, hcounts⟩, hoffsets⟩ hgood hstep
    obtain ⟨hsequential, hstep⟩ := restrict_eq_some.mp hstep
    refine ⟨⟨?_, step_inTurn hturn howns hsequential hstep, step_counts hcounts howns hstep⟩, ?_⟩
    · exact step_owns howns (hturn.keepsHandles hsequential) False.elim
        (fun i hi => (hturn.pending i hi).2.2) hstep
    · rcases step_chunks hstep with hsame | ⟨i, size, rfl, hrest, hreading, hdelivers, rfl⟩
      · intro i
        rw [show List.filterMap (Call.chunk i) _ = _ from congrFun hsame i]
        exact hoffsets i
      · exact (onData_offsets_iff (c := c.resetConnectReq none) hoffsets hcounts
          (howns.read hreading) hrest hreading hdelivers).mpr (hgood hdelivers)
  · rintro c e c' ⟨⟨howns, _, hcounts⟩, hoffsets⟩ hbad hstep hafter
    obtain ⟨i, size, rfl, hdelivers, hbytes⟩ := exists_of_not_nothingBefore hbad
    obtain ⟨_, hstep⟩ := restrict_eq_some.mp hstep
    obtain ⟨hrest, hreading, rfl⟩ := by simpa [step, handle] using hstep
    exact hbytes ((onData_offsets_iff (c := c.resetConnectReq none) hoffsets hcounts
      (howns.read hreading) hrest hreading hdelivers).mp hafter)
  · exact ⟨⟨start_owns False, start_inTurn, start_counts⟩, fun _ => trivial⟩

/-- The peer ends the first connection, the user connects again in the close callback, and the
second connection receives two chunks. The first one receives `before`. -/
def connectedAgain (before : List Event) : List Event :=
  connecting { receiveCallback := .silent, closeCallback := .user } ++ before ++
    [.loop (.failure 0 (.ofCode .endOfFile) {}),
      .call (.connect { receiveCallback := .silent }), .leave, .loop (.scheduled {}),
      .loop (.connected 1 {} {}), .loop (.data 1 3), .loop (.data 1 4)]

/-- After a first connection with 5 bytes, the offsets of the second start at 5. -/
theorem offsets_carried_over :
    (exec (restrict Sequential step) {} (connectedAgain [.loop (.data 0 5)])).map
        (fun c => c.calls.filterMap (Call.chunk 1)) = some [(5, 3), (8, 4)] ∧
      ¬ Throughout (restrict Sequential step) OffsetsPerConnection {}
        (connectedAgain [.loop (.data 0 5)]) := by
  have hend : (exec (restrict Sequential step) {} (connectedAgain [.loop (.data 0 5)])).map
      (fun c => c.calls.filterMap (Call.chunk 1)) = some [(5, 3), (8, 4)] := by
    decide +kernel
  refine ⟨hend, fun h => ?_⟩
  obtain ⟨c, hrun, hchunks⟩ := Option.map_eq_some_iff.mp hend
  have hsecond := h.last hrun 1
  rw [hchunks] at hsecond
  exact absurd hsecond.1 (by decide)

theorem offsets_per_connection_iff_connectedAgain :
    Along (restrict Sequential step) NothingBefore {} (connectedAgain []) ∧
      Throughout (restrict Sequential step) OffsetsPerConnection {} (connectedAgain []) := by
  have hnothing : Along (restrict Sequential step) NothingBefore {} (connectedAgain []) := by
    decide +kernel
  exact ⟨hnothing, (offsets_per_connection_iff (by decide +kernel)).mpr hnothing⟩

end TcpClient

end TarmIo.Net.Tcp
