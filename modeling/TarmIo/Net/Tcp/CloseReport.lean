import TarmIo.Net.Tcp.TcpClient

/-!
# How a `TcpClient` reports the end of a connection

Three handlers call the close callback: the one of a failed read, of a failed shutdown and of
the closed handle. `Connection` keeps what decides which of them do: an established client
that does not connect again goes through its steps. A connection ends well when no shutdown
request is pending at its end and none fails; otherwise it is doomed to a second report or to
an operation on the null stream.
-/

namespace TarmIo.Net.Tcp

open Foundation

/-- The callback that runs, as far as it matters for the end of the connection. -/
inductive Within
  | idle
  | other
  | readFailed
  | shutdownFailed
  | closed
deriving DecidableEq

/-- One connection: whether the client holds its stream and the stream knows the client, the
state of the handle, and how often the end was reported and the null stream was used. -/
structure Connection where
  held : Bool
  owned : Bool
  closing : Bool
  closed : Bool
  shutdowns : Nat
  within : Within
  reports : Nat
  nullOperations : Nat
deriving DecidableEq

namespace Connection

/-- What happens to a connection. `user` says that the user acts in the close callback. -/
inductive Act
  | stay
  | enter
  | leave
  | release (accepted : Bool)
  | request
  | fail (user : Bool)
  | failed
  | shutdown (ok user : Bool)
  | shutdownFailed
  | close (user : Bool)
deriving DecidableEq

def finish (k : Connection) : Connection :=
  if k.held then { k with held := false, closing := true }
  else { k with nullOperations := k.nullOperations + 1 }

def act (k : Connection) : Act → Option Connection
  | .stay => some k
  | .enter =>
      if k.within = .idle ∧ k.closing = false then some { k with within := .other } else none
  | .leave =>
      if k.within = .other ∨ k.within = .closed then some { k with within := .idle } else none
  | .release accepted =>
      if k.held then some { k with held := false, closing := accepted } else none
  | .request => if k.held then some { k with shutdowns := k.shutdowns + 1 } else none
  | .fail user =>
      if k.within = .idle ∧ k.closing = false then
        if k.held then
          some { k with
            held := false, owned := false, reports := k.reports + 1, closing := !user,
            within := if user then .readFailed else .idle }
        else some { k with nullOperations := k.nullOperations + 1 }
      else none
  | .failed =>
      if k.within = .readFailed then some { k with within := .idle, closing := true } else none
  | .shutdown ok user =>
      if k.within = .idle ∧ 0 < k.shutdowns ∧ (k.closing = true → ok = false) then
        if ok then some { k with shutdowns := k.shutdowns - 1 }.finish
        else if user then
          some { k with
            shutdowns := k.shutdowns - 1, reports := k.reports + 1, within := .shutdownFailed }
        else some { k with shutdowns := k.shutdowns - 1, reports := k.reports + 1 }.finish
      else none
  | .shutdownFailed =>
      if k.within = .shutdownFailed then some { k with within := .idle }.finish else none
  | .close user =>
      if k.within = .idle ∧ k.closing = true ∧ k.closed = false ∧ k.shutdowns = 0 then
        if k.owned then
          some { k with
            closed := true, reports := k.reports + 1,
            within := if user then .closed else .idle }
        else some { k with closed := true }
      else none

/-- No shutdown request is pending when the connection ends, libuv takes the stream and no second
request, and no shutdown fails. -/
def Clean (k : Connection) : Act → Prop
  | .release accepted => accepted = true ∧ k.shutdowns = 0
  | .request => k.shutdowns = 0
  | .fail _ => k.shutdowns = 0
  | .shutdown ok _ => ok = true
  | _ => True

structure WellFormed (k : Connection) : Prop where
  held : k.held = true → k.closing = false ∧ k.owned = true ∧ k.closed = false
  closed : k.closed = true → k.closing = true
  failing : k.within = .readFailed → k.held = false

/-- The way of a connection that ends well, when `n` ends were reported before. -/
inductive Stage (n : Nat) (k : Connection) : Prop
  | live (hheld : k.held = true) (hshutdowns : k.shutdowns ≤ 1)
      (hwithin : k.within = .idle ∨ k.within = .other) (hreports : k.reports = n)
  | released (hheld : k.held = false) (howned : k.owned = true) (hclosing : k.closing = true)
      (hclosed : k.closed = false) (hshutdowns : k.shutdowns = 0)
      (hwithin : k.within = .idle ∨ k.within = .other) (hreports : k.reports = n)
  | failing (hheld : k.held = false) (howned : k.owned = false) (hclosing : k.closing = false)
      (hshutdowns : k.shutdowns = 0) (hwithin : k.within = .readFailed)
      (hreports : k.reports = n + 1)
  | ending (hheld : k.held = false) (howned : k.owned = false) (hclosing : k.closing = true)
      (hclosed : k.closed = false) (hshutdowns : k.shutdowns = 0) (hwithin : k.within = .idle)
      (hreports : k.reports = n + 1)
  | finished (hheld : k.held = false) (hclosing : k.closing = true) (hclosed : k.closed = true)
      (hshutdowns : k.shutdowns = 0) (hwithin : k.within = .idle ∨ k.within = .closed)
      (hreports : k.reports = n + 1)

variable {k k' : Connection} {n : Nat} {a : Act}

/-- What an act finds and what it leaves, branch by branch. -/
inductive Moves (k : Connection) : Act → Connection → Prop
  | stay : Moves k .stay k
  | enter (hwithin : k.within = .idle) (hclosing : k.closing = false) :
      Moves k .enter { k with within := .other }
  | leave (hwithin : k.within = .other ∨ k.within = .closed) :
      Moves k .leave { k with within := .idle }
  | release (accepted : Bool) (hheld : k.held = true) :
      Moves k (.release accepted) { k with held := false, closing := accepted }
  | request (hheld : k.held = true) : Moves k .request { k with shutdowns := k.shutdowns + 1 }
  | fail (user : Bool) (hwithin : k.within = .idle) (hclosing : k.closing = false)
      (hheld : k.held = true) :
      Moves k (.fail user)
        { k with
          held := false, owned := false, reports := k.reports + 1, closing := !user,
          within := if user then .readFailed else .idle }
  | failNull (user : Bool) (hwithin : k.within = .idle) (hclosing : k.closing = false)
      (hheld : k.held = false) :
      Moves k (.fail user) { k with nullOperations := k.nullOperations + 1 }
  | failed (hwithin : k.within = .readFailed) :
      Moves k .failed { k with within := .idle, closing := true }
  | shutdown (ok user : Bool) (hwithin : k.within = .idle) (hshutdowns : 0 < k.shutdowns)
      (hheld : k.held = true) (hstop : ¬ (ok = false ∧ user = true)) :
      Moves k (.shutdown ok user)
        { k with
          shutdowns := k.shutdowns - 1, held := false, closing := true,
          reports := if ok then k.reports else k.reports + 1 }
  | shutdownNull (ok user : Bool) (hwithin : k.within = .idle) (hshutdowns : 0 < k.shutdowns)
      (hheld : k.held = false) (hstop : ¬ (ok = false ∧ user = true)) :
      Moves k (.shutdown ok user)
        { k with
          shutdowns := k.shutdowns - 1, reports := if ok then k.reports else k.reports + 1,
          nullOperations := k.nullOperations + 1 }
  | shutdownStop (hwithin : k.within = .idle) (hshutdowns : 0 < k.shutdowns) :
      Moves k (.shutdown false true)
        { k with
          shutdowns := k.shutdowns - 1, reports := k.reports + 1, within := .shutdownFailed }
  | shutdownFailed (hwithin : k.within = .shutdownFailed) (hheld : k.held = true) :
      Moves k .shutdownFailed { k with within := .idle, held := false, closing := true }
  | shutdownFailedNull (hwithin : k.within = .shutdownFailed) (hheld : k.held = false) :
      Moves k .shutdownFailed
        { k with within := .idle, nullOperations := k.nullOperations + 1 }
  | close (user : Bool) (hwithin : k.within = .idle) (hclosing : k.closing = true)
      (hclosed : k.closed = false) (hshutdowns : k.shutdowns = 0) (howned : k.owned = true) :
      Moves k (.close user)
        { k with
          closed := true, reports := k.reports + 1, within := if user then .closed else .idle }
  | closeDisowned (user : Bool) (hwithin : k.within = .idle) (hclosing : k.closing = true)
      (hclosed : k.closed = false) (hshutdowns : k.shutdowns = 0) (howned : k.owned = false) :
      Moves k (.close user) { k with closed := true }

theorem act_moves (hact : k.act a = some k') : k.Moves a k' := by
  cases a with
  | stay =>
      cases hact
      exact .stay
  | enter =>
      obtain ⟨⟨hwithin, hclosing⟩, rfl⟩ := by simpa [act] using hact
      exact .enter hwithin hclosing
  | leave =>
      obtain ⟨hwithin, rfl⟩ := by simpa [act] using hact
      exact .leave hwithin
  | release accepted =>
      obtain ⟨hheld, rfl⟩ := by simpa [act] using hact
      exact .release accepted hheld
  | request =>
      obtain ⟨hheld, rfl⟩ := by simpa [act] using hact
      exact .request hheld
  | fail user =>
      obtain ⟨⟨hwithin, hclosing⟩, hact⟩ := Option.ite_none_right_eq_some.mp hact
      split at hact
      · rename_i hheld
        cases hact
        exact .fail user hwithin hclosing hheld
      · rename_i hheld
        cases hact
        exact .failNull user hwithin hclosing (eq_false_of_ne_true hheld)
  | failed =>
      obtain ⟨hwithin, rfl⟩ := by simpa [act] using hact
      exact .failed hwithin
  | shutdown ok user =>
      obtain ⟨⟨hwithin, hshutdowns, _⟩, hact⟩ := Option.ite_none_right_eq_some.mp hact
      by_cases hstop : ok = false ∧ user = true
      · obtain ⟨rfl, rfl⟩ := hstop
        cases hact
        exact .shutdownStop hwithin hshutdowns
      · have hfinish : k' = { k with
            shutdowns := k.shutdowns - 1
            reports := if ok then k.reports else k.reports + 1 }.finish := by
          cases ok <;> cases user <;> simp_all
        rw [hfinish]
        by_cases hheld : k.held = true
        · rw [finish, if_pos hheld]
          exact .shutdown ok user hwithin hshutdowns hheld hstop
        · rw [finish, if_neg hheld]
          exact .shutdownNull ok user hwithin hshutdowns (eq_false_of_ne_true hheld) hstop
  | shutdownFailed =>
      obtain ⟨hwithin, rfl⟩ := by simpa [act] using hact
      rw [finish]
      split
      · rename_i hheld
        exact .shutdownFailed hwithin hheld
      · rename_i hheld
        exact .shutdownFailedNull hwithin (eq_false_of_ne_true hheld)
  | close user =>
      obtain ⟨⟨hwithin, hclosing, hclosed, hshutdowns⟩, hact⟩ :=
        Option.ite_none_right_eq_some.mp hact
      split at hact
      · rename_i howned
        cases hact
        exact .close user hwithin hclosing hclosed hshutdowns howned
      · rename_i howned
        cases hact
        exact .closeDisowned user hwithin hclosing hclosed hshutdowns
          (eq_false_of_ne_true howned)

theorem act_wellFormed (h : k.WellFormed) (hact : k.act a = some k') : k'.WellFormed := by
  cases act_moves hact with
  | stay | request | failNull | shutdownNull => exact ⟨h.held, h.closed, h.failing⟩
  | enter | leave | shutdownStop | shutdownFailedNull => exact ⟨h.held, h.closed, nofun⟩
  | shutdown | shutdownFailed => exact ⟨nofun, fun _ => rfl, fun _ => rfl⟩
  | release accepted hheld | fail user _ _ hheld =>
      have hopen : k.closed = false := (h.held hheld).2.2
      exact ⟨nofun, fun hclosed => (nomatch hopen.symm.trans hclosed), fun _ => rfl⟩
  | failed hwithin =>
      have hreleased : k.held = false := h.failing hwithin
      exact ⟨fun hheld => (nomatch hreleased.symm.trans hheld), fun _ => rfl, nofun⟩
  | close user hwithin hclosing =>
      refine ⟨fun hheld => (nomatch (h.held hheld).1.symm.trans hclosing), fun _ => hclosing, ?_⟩
      cases user <;> nofun
  | closeDisowned user hwithin hclosing =>
      exact ⟨fun hheld => (nomatch (h.held hheld).1.symm.trans hclosing), fun _ => hclosing,
        h.failing⟩

/-- Reports and uses of the null stream are not taken back. -/
theorem act_monotone (hact : k.act a = some k') :
    k.reports ≤ k'.reports ∧ k.nullOperations ≤ k'.nullOperations := by
  cases act_moves hact with
  | stay | enter | leave | release | request => exact ⟨Nat.le_refl _, Nat.le_refl _⟩
  | failed | shutdownFailed | closeDisowned => exact ⟨Nat.le_refl _, Nat.le_refl _⟩
  | fail | shutdownStop | close => exact ⟨Nat.le_succ _, Nat.le_refl _⟩
  | failNull | shutdownFailedNull => exact ⟨Nat.le_refl _, Nat.le_succ _⟩
  | shutdown ok => cases ok <;> simp
  | shutdownNull ok => cases ok <;> simp

/-- Of the stage before, only the acts that lead on are possible. -/
theorem act_stage (h : k.Stage n) (hwf : k.WellFormed) (hclean : k.Clean a)
    (hact : k.act a = some k') : k'.Stage n ∧ k'.nullOperations = k.nullOperations := by
  have hmoves := act_moves hact
  clear hact
  cases h with
  | live hheld hshutdowns hwithin hreports =>
      obtain ⟨hopen, howned, hclosed⟩ := hwf.held hheld
      cases hmoves with
      | stay => exact ⟨.live hheld hshutdowns hwithin hreports, rfl⟩
      | enter => exact ⟨.live hheld hshutdowns (.inr rfl) hreports, rfl⟩
      | leave => exact ⟨.live hheld hshutdowns (.inl rfl) hreports, rfl⟩
      | release accepted =>
          obtain ⟨rfl, hnone⟩ := hclean
          exact ⟨.released rfl howned rfl hclosed hnone hwithin hreports, rfl⟩
      | request =>
          have hnone : k.shutdowns = 0 := hclean
          exact ⟨.live hheld (by simp [hnone]) hwithin hreports, rfl⟩
      | fail user =>
          cases user with
          | true => exact ⟨.failing rfl rfl rfl hclean rfl (congrArg _ hreports), rfl⟩
          | false => exact ⟨.ending rfl rfl rfl hclosed hclean rfl (congrArg _ hreports), rfl⟩
      | shutdown ok user hidle hpending =>
          have hok : ok = true := hclean
          subst hok
          exact ⟨.released rfl howned rfl hclosed (Nat.sub_eq_zero_of_le hshutdowns) (.inl hidle)
            hreports, rfl⟩
      | failed hfailing => exact nomatch hheld.symm.trans (hwf.failing hfailing)
      | _ => simp_all [Clean]
  | released hheld howned hclosing hclosed hshutdowns hwithin hreports =>
      cases hmoves with
      | stay => exact ⟨.released hheld howned hclosing hclosed hshutdowns hwithin hreports, rfl⟩
      | leave =>
          exact ⟨.released hheld howned hclosing hclosed hshutdowns (.inl rfl) hreports, rfl⟩
      | close user =>
          refine ⟨.finished hheld hclosing rfl hshutdowns ?_ (congrArg _ hreports), rfl⟩
          cases user <;> simp
      | _ => simp_all
  | failing hheld howned hclosing hshutdowns hwithin hreports =>
      have hclosed : k.closed = false := by
        refine eq_false_of_ne_true fun hclosed => ?_
        exact nomatch hclosing.symm.trans (hwf.closed hclosed)
      cases hmoves with
      | stay => exact ⟨.failing hheld howned hclosing hshutdowns hwithin hreports, rfl⟩
      | failed => exact ⟨.ending hheld howned rfl hclosed hshutdowns rfl hreports, rfl⟩
      | _ => simp_all
  | ending hheld howned hclosing hclosed hshutdowns hwithin hreports =>
      cases hmoves with
      | stay => exact ⟨.ending hheld howned hclosing hclosed hshutdowns hwithin hreports, rfl⟩
      | closeDisowned =>
          exact ⟨.finished hheld hclosing rfl hshutdowns (.inl hwithin) hreports, rfl⟩
      | _ => simp_all
  | finished hheld hclosing hclosed hshutdowns hwithin hreports =>
      cases hmoves with
      | stay => exact ⟨.finished hheld hclosing hclosed hshutdowns hwithin hreports, rfl⟩
      | leave => exact ⟨.finished hheld hclosing hclosed hshutdowns (.inl rfl) hreports, rfl⟩
      | _ => simp_all

theorem Stage.reports_le (h : k.Stage n) : n ≤ k.reports ∧ k.reports ≤ n + 1 := by
  cases h <;> omega

/-- A closed handle was reported, when nothing went wrong. -/
theorem Stage.reports_of_closed (h : k.Stage n) (hwf : k.WellFormed) (hclosed : k.closed = true) :
    k.reports = n + 1 := by
  obtain ⟨hopen, hclosing, _⟩ := hwf
  cases h with
  | live hheld =>
      exact nomatch (hopen hheld).2.2.symm.trans hclosed
  | released _ _ _ hnot | ending _ _ _ hnot => exact nomatch hnot.symm.trans hclosed
  | failing _ _ hnot => exact nomatch hnot.symm.trans (hclosing hclosed)
  | finished _ _ _ _ _ hreports => exact hreports

/-- A connection that cannot end well any more: it has used the null stream or was reported twice,
or it will do so before it is settled, or it never settles. -/
inductive Doomed (n : Nat) (k : Connection) : Prop
  | nullOperation (h : 0 < k.nullOperations)
  | reportedTwice (h : n + 2 ≤ k.reports)
  | shutdownPending (hheld : k.held = false) (hshutdowns : 0 < k.shutdowns)
  | shutdownFailed (hheld : k.held = false) (hwithin : k.within = .shutdownFailed)
  | lost (hheld : k.held = false) (hclosing : k.closing = false) (hwithin : k.within ≠ .readFailed)
  | reportedEarly (howned : k.owned = true) (hclosed : k.closed = false)
      (hreports : n + 1 ≤ k.reports)
  | shutdownTwice (hheld : k.held = true) (hshutdowns : 2 ≤ k.shutdowns)

/-- What is not clean leaves a request behind, loses the stream, or reports too early. -/
theorem doomed_of_not_clean (h : k.Stage n) (hwf : k.WellFormed) (hbad : ¬ k.Clean a)
    (hact : k.act a = some k') : k'.Doomed n := by
  have hmoves := act_moves hact
  clear hact
  cases h with
  | live hheld hshutdowns hwithin hreports =>
      obtain ⟨hopen, howned, hclosed⟩ := hwf.held hheld
      have hearly : n + 1 ≤ k.reports + 1 := by omega
      cases hmoves with
      | release accepted =>
          cases accepted with
          | true =>
              have hpending : k.shutdowns ≠ 0 := fun hnone => hbad ⟨rfl, hnone⟩
              exact .shutdownPending rfl (Nat.pos_of_ne_zero hpending)
          | false =>
              refine .lost rfl rfl fun hfailing => ?_
              exact nomatch hheld.symm.trans (hwf.failing hfailing)
      | request =>
          have hpending : k.shutdowns ≠ 0 := hbad
          exact .shutdownTwice hheld (Nat.succ_le_succ (Nat.pos_of_ne_zero hpending))
      | fail => exact .shutdownPending rfl (Nat.pos_of_ne_zero hbad)
      | shutdown ok =>
          have hfailed : ok = false := eq_false_of_ne_true hbad
          subst hfailed
          exact .reportedEarly howned hclosed hearly
      | shutdownStop => exact .reportedEarly howned hclosed hearly
      | failNull | shutdownNull => simp_all
      | _ => exact absurd trivial hbad
  | released | failing | ending | finished =>
      cases hmoves with
      | release | request | fail | failNull => simp_all
      | shutdown | shutdownNull | shutdownStop => simp_all
      | _ => exact absurd trivial hbad

/-- Nothing leads out. -/
theorem act_doomed (h : k.Doomed n) (hwf : k.WellFormed) (hreports : n ≤ k.reports)
    (hact : k.act a = some k') : k'.Doomed n := by
  have hmonotone := act_monotone hact
  have hmoves := act_moves hact
  clear hact
  cases h with
  | nullOperation h => exact .nullOperation (Nat.lt_of_lt_of_le h hmonotone.2)
  | reportedTwice h => exact .reportedTwice (Nat.le_trans h hmonotone.1)
  | shutdownPending hheld hshutdowns =>
      cases hmoves with
      | stay | enter | leave | failed => exact .shutdownPending hheld hshutdowns
      | failNull | shutdownNull | shutdownFailedNull => exact .nullOperation (Nat.succ_pos _)
      | shutdownStop => exact .shutdownFailed hheld rfl
      | _ => simp_all
  | shutdownFailed hheld hwithin =>
      cases hmoves with
      | stay => exact .shutdownFailed hheld hwithin
      | shutdownFailedNull => exact .nullOperation (Nat.succ_pos _)
      | _ => simp_all
  | lost hheld hclosing hwithin =>
      cases hmoves with
      | stay => exact .lost hheld hclosing hwithin
      | enter | leave => exact .lost hheld hclosing nofun
      | failNull | shutdownNull | shutdownFailedNull => exact .nullOperation (Nat.succ_pos _)
      | shutdownStop => exact .shutdownFailed hheld rfl
      | _ => simp_all
  | reportedEarly howned hclosed hearly =>
      have hstill := Nat.le_trans hearly hmonotone.1
      cases hmoves with
      | stay | enter | leave | release | request => exact .reportedEarly howned hclosed hstill
      | failed | shutdown | shutdownStop | shutdownFailed =>
          exact .reportedEarly howned hclosed hstill
      | failNull | shutdownNull | shutdownFailedNull => exact .nullOperation (Nat.succ_pos _)
      | fail | close => exact .reportedTwice (Nat.succ_le_succ hearly)
      | closeDisowned => simp_all
  | shutdownTwice hheld hshutdowns =>
      obtain ⟨hopen, howned, hclosed⟩ := hwf.held hheld
      cases hmoves with
      | stay | enter | leave => exact .shutdownTwice hheld hshutdowns
      | request => exact .shutdownTwice hheld (Nat.le_succ_of_le hshutdowns)
      | release | fail | shutdownFailed =>
          exact .shutdownPending rfl (Nat.lt_of_lt_of_le Nat.zero_lt_two hshutdowns)
      | shutdown => exact .shutdownPending rfl (Nat.sub_pos_of_lt hshutdowns)
      | shutdownStop => exact .reportedEarly howned hclosed (Nat.succ_le_succ hreports)
      | failed hfailing => exact nomatch hheld.symm.trans (hwf.failing hfailing)
      | _ => simp_all

/-- A settled connection that was doomed has used the null stream or was not reported once. -/
theorem Doomed.not_once (h : k.Doomed n) (hwf : k.WellFormed) (hclosed : k.closed = true)
    (hshutdowns : k.shutdowns = 0) (hidle : k.within = .idle) :
    ¬ (k.reports = n + 1 ∧ k.nullOperations = 0) := by
  obtain ⟨hopen, hclosing, _⟩ := hwf
  rintro ⟨hreports, hnull⟩
  cases h with
  | nullOperation h => omega
  | reportedTwice h => omega
  | shutdownPending _ h => omega
  | shutdownFailed _ h => exact nomatch hidle.symm.trans h
  | lost _ h => exact nomatch h.symm.trans (hclosing hclosed)
  | reportedEarly _ h => exact nomatch h.symm.trans hclosed
  | shutdownTwice _ h => omega

end Connection

/-! ## The client goes through the connection's steps -/

def Call.isClose : Call → Bool
  | .close _ => true
  | _ => false

def Frame.within : Frame → Within
  | .readFailed _ => .readFailed
  | .shutdownFailed _ => .shutdownFailed
  | .closed => .closed
  | _ => .other

def Frame.Concerns (i : Nat) : Frame → Prop
  | .received _ _ | .closed => True
  | .connected j readStart => j = i ∧ readStart.isError = false
  | .readFailed j | .shutdownFailed j => j = i
  | .connectFailed | .connectReset _ _ _ | .connectResetClosed _ _ | .readStartFailed => False

structure Stream.Settled (h : Stream) : Prop where
  connecting : h.connecting = false
  reading : h.reading = false
  shutdowns : h.shutdowns = 0
  closing : h.closing = true → h.closed = true

namespace TcpClient

variable {c c' : TcpClient} {i : Nat}

def connection (c : TcpClient) (i : Nat) : Connection where
  held := c.tcpStream.isSome
  owned := (c.streams i).owned
  closing := (c.streams i).closing
  closed := (c.streams i).closed
  shutdowns := (c.streams i).shutdowns
  within := c.running.elim .idle Frame.within
  reports := c.calls.countP Call.isClose
  nullOperations := c.nullOperations

structure OneStream (c : TcpClient) (i : Nat) : Prop where
  closeCallback : c.closeCallback ≠ .null
  scheduled : c.scheduled = []
  others : ∀ j ≠ i, (c.streams j).Settled
  connecting : (c.streams i).connecting = false
  reading : (c.streams i).reading = true → (c.streams i).closing = false
  tcpStream : ∀ j, c.tcpStream = some j → j = i ∧ (c.streams i).closing = false
  isOpen : c.isOpen = c.tcpStream.isSome
  running : ∀ frame, c.running = some frame → frame.Concerns i

theorem OneStream.onStream (h : c.OneStream i) {f : Stream → Stream}
    (hconnecting : (f (c.streams i)).connecting = false)
    (hreading : (f (c.streams i)).reading = true → (f (c.streams i)).closing = false)
    (hclosing : (f (c.streams i)).closing = (c.streams i).closing) :
    (c.onStream i f).OneStream i := by
  have hself : (c.onStream i f).streams i = f (c.streams i) := Function.update_self ..
  refine { h with others := fun j hj => ?_, connecting := ?_, reading := ?_, tcpStream := ?_ }
  · exact (congrArg Stream.Settled (Function.update_of_ne hj _ _)).mpr (h.others j hj)
  · rw [hself]
    exact hconnecting
  · rw [hself]
    exact hreading
  · intro j hj
    rw [hself, hclosing]
    exact h.tcpStream j hj

theorem OneStream.resetConnectReq (h : c.OneStream i) (request : Option Nat) :
    (c.resetConnectReq request).OneStream i := { h with }

theorem OneStream.release (h : c.OneStream i) :
    OneStream { c with isOpen := false, tcpStream := none } i :=
  { h with tcpStream := nofun, isOpen := rfl }

theorem OneStream.uvClose (h : c.OneStream i) (hnone : c.tcpStream = none) :
    (c.uvClose i).OneStream i := by
  have hself : (c.uvClose i).streams i =
      { c.streams i with closing := true, reading := false } := Function.update_self ..
  refine { h with others := fun j hj => ?_, connecting := ?_, reading := ?_, tcpStream := ?_ }
  · exact (congrArg Stream.Settled (Function.update_of_ne hj _ _)).mpr (h.others j hj)
  · rw [hself]
    exact h.connecting
  · rw [hself]
    exact nofun
  · intro j hj
    exact nomatch hnone.symm.trans hj

/-- No shutdown request is pending when the stream is closed, reset or fails, libuv takes the
stream that it is to reset and no second shutdown request, and no shutdown fails. -/
def Clean (c : TcpClient) : Event → Prop
  | .call .close => ∀ i ∈ c.tcpStream, (c.streams i).shutdowns = 0
  | .call (.closeWithReset accepted) =>
      ∀ i ∈ c.tcpStream, accepted = true ∧ (c.streams i).shutdowns = 0
  | .call (.shutdown accepted) =>
      accepted = true → ∀ i ∈ c.tcpStream, (c.streams i).shutdowns = 0
  | .loop (.failure i _ _) => (c.streams i).shutdowns = 0
  | .loop (.shutdown _ status) => status.isError = false
  | _ => True

instance (c : TcpClient) (e : Event) : Decidable (c.Clean e) := by
  unfold Clean
  split <;> infer_instance

def Takes (c : TcpClient) (i : Nat) (a : Connection.Act) (d : TcpClient) : Prop :=
  (c.connection i).act a = some (d.connection i)

theorem takes_stay {d : TcpClient} (hsame : d.connection i = c.connection i) :
    c.Takes i .stay d := by
  rw [Takes, hsame]
  rfl

theorem OneStream.closeStream (h : c.OneStream i) (accepted : Bool) :
    (c.closeStream accepted).OneStream i ∧
      ((c.tcpStream = none ∧ c.Takes i .stay (c.closeStream accepted)) ∨
        (c.tcpStream = some i ∧ c.Takes i (.release accepted) (c.closeStream accepted))) := by
  cases hstream : c.tcpStream with
  | none =>
      rw [closeStream_none hstream]
      refine ⟨?_, .inl ⟨rfl, takes_stay rfl⟩⟩
      exact { h with isOpen := (congrArg Option.isSome hstream).symm }
  | some j =>
      obtain ⟨rfl, hopen⟩ := h.tcpStream j hstream
      rw [closeStream_some hstream hopen]
      cases accepted with
      | true =>
          refine ⟨h.release.uvClose rfl, .inr ⟨rfl, ?_⟩⟩
          simp [Takes, connection, Connection.act, hstream, TcpClient.uvClose,
            TcpClient.onStream]
      | false =>
          refine ⟨h.release, .inr ⟨rfl, ?_⟩⟩
          simp [Takes, connection, Connection.act, hstream, hopen]

/-- The step `e` of the client is a step of its connection, and both are clean or none. -/
def Refines (c : TcpClient) (i : Nat) (e : Event) (d : TcpClient) : Prop :=
  d.OneStream i ∧ ∃ a, c.Takes i a d ∧ (c.Clean e ↔ (c.connection i).Clean a)

section

variable (h : c.OneStream i)
include h

theorem OneStream.refines_shutdown (accepted : Bool) :
    c.Refines i (.call (.shutdown accepted)) (c.shutdown accepted) := by
  have hopen := h.isOpen
  unfold TcpClient.shutdown
  cases hstream : c.tcpStream with
  | none =>
      rw [hstream] at hopen
      rw [hopen]
      refine ⟨h, .stay, takes_stay rfl, ?_⟩
      simp [Clean, hstream, Connection.Clean]
  | some j =>
      obtain ⟨rfl, _⟩ := h.tcpStream j hstream
      rw [hstream] at hopen
      rw [hopen]
      cases accepted with
      | false =>
          refine ⟨h, .stay, takes_stay rfl, ?_⟩
          simp [Clean, Connection.Clean]
      | true =>
          have hrequested :
              (c.onStream j fun h => { h with shutdowns := h.shutdowns + 1 }).OneStream j :=
            h.onStream h.connecting h.reading rfl
          refine ⟨hrequested, .request, ?_, ?_⟩
          · simp [Takes, connection, Connection.act, hstream, TcpClient.onStream]
          · simp [Clean, hstream, Connection.Clean, connection]

theorem OneStream.sendData (buffer : Option (List UInt8)) (size : UInt32) :
    c.sendData buffer size = c := by
  have hopen := h.isOpen
  unfold TcpClient.sendData
  cases hstream : c.tcpStream with
  | none => simp [hopen, hstream]
  | some j =>
      obtain ⟨rfl, hclosing⟩ := h.tcpStream j hstream
      simp [hclosing]

theorem OneStream.refines_apply {user : UserCall} (huser : ∀ args, user ≠ .connect args) :
    c.Refines i (.call user) (c.apply user) := by
  cases user with
  | connect args => exact absurd rfl (huser args)
  | close =>
      obtain ⟨hafter, ⟨hstream, htakes⟩ | ⟨hstream, htakes⟩⟩ := h.closeStream true
      · exact ⟨hafter, _, htakes, by simp [Clean, hstream, Connection.Clean]⟩
      · exact ⟨hafter, _, htakes, by simp [Clean, hstream, Connection.Clean, connection]⟩
  | closeWithReset accepted =>
      obtain ⟨hafter, ⟨hstream, htakes⟩ | ⟨hstream, htakes⟩⟩ := h.closeStream accepted
      · exact ⟨hafter, _, htakes, by simp [Clean, hstream, Connection.Clean]⟩
      · exact ⟨hafter, _, htakes, by simp [Clean, hstream, Connection.Clean, connection]⟩
  | shutdown accepted => exact h.refines_shutdown accepted
  | sendData buffer size =>
      rw [apply, h.sendData]
      exact ⟨h, .stay, takes_stay rfl, Iff.rfl⟩

theorem OneStream.refines_finishShutdown :
    (c.finishShutdown i).OneStream i ∧
      (c.finishShutdown i).connection i = (c.connection i).finish := by
  cases hstream : c.tcpStream with
  | none =>
      rw [finishShutdown_none hstream]
      refine ⟨{ h with isOpen := (congrArg Option.isSome hstream).symm }, ?_⟩
      simp [connection, Connection.finish, hstream, nullOperation]
  | some j =>
      obtain ⟨rfl, hopen⟩ := h.tcpStream j hstream
      rw [finishShutdown_some hstream hopen]
      refine ⟨h.release.uvClose rfl, ?_⟩
      simp [connection, Connection.finish, hstream, TcpClient.uvClose, TcpClient.onStream]

theorem OneStream.refines_startRead {readStart : Error} (hok : readStart.isError = false) :
    (c.startRead i readStart).OneStream i ∧
      (c.startRead i readStart).connection i = c.connection i := by
  have hopen := h.isOpen
  unfold TcpClient.startRead
  cases hstream : c.tcpStream with
  | none => simp [hopen, hstream, h]
  | some j =>
      obtain ⟨rfl, hclosing⟩ := h.tcpStream j hstream
      have hreading : (c.onStream j fun h => { h with reading := true }).OneStream j :=
        h.onStream h.connecting (fun _ => hclosing) rfl
      simp only [hopen, hstream, hclosing, hok]
      exact ⟨hreading, by simp [connection, TcpClient.onStream]⟩

theorem OneStream.refines_leave (hwf : (c.connection i).WellFormed) {frame : Frame}
    (hrunning : c.running = some frame) :
    c.Refines i .leave ({ c with running := none }.resume frame) := by
  have hrest : OneStream { c with running := none } i :=
    { h with running := fun _ hframe => nomatch hframe }
  have hconcerns := h.running frame hrunning
  have hclean : c.Clean .leave := trivial
  cases frame with
  | connectFailed | connectReset | connectResetClosed | readStartFailed => exact hconcerns.elim
  | received j size =>
      have hadvanced : ({ c with running := none }.advance size).OneStream i := { hrest with }
      refine ⟨hadvanced, .leave, ?_, iff_of_true hclean trivial⟩
      simp [Takes, connection, Connection.act, hrunning, Frame.within, resume, advance]
  | closed =>
      refine ⟨hrest, .leave, ?_, iff_of_true hclean trivial⟩
      simp [Takes, connection, Connection.act, hrunning, Frame.within, resume]
  | connected j readStart =>
      obtain ⟨rfl, hok⟩ := hconcerns
      obtain ⟨hread, hsame⟩ := hrest.refines_startRead hok
      refine ⟨hread, .leave, ?_, iff_of_true hclean trivial⟩
      rw [Takes, resume, hsame]
      simp [connection, Connection.act, hrunning, Frame.within]
  | readFailed j =>
      obtain rfl := hconcerns
      have hnone : c.tcpStream = none := by
        have := hwf.failing (by simp [connection, hrunning, Frame.within])
        simpa [connection] using this
      refine ⟨hrest.uvClose hnone, .failed, ?_, iff_of_true hclean trivial⟩
      simp [Takes, connection, Connection.act, hrunning, Frame.within, resume,
        TcpClient.uvClose, TcpClient.onStream]
  | shutdownFailed j =>
      obtain rfl := hconcerns
      obtain ⟨hfinished, hsame⟩ := hrest.refines_finishShutdown
      refine ⟨hfinished, .shutdownFailed, ?_, iff_of_true hclean trivial⟩
      rw [Takes, resume, hsame]
      simp [connection, Connection.act, hrunning, Frame.within]

end

/-- Calls other than reports leave the count alone. -/
theorem connection_log (call : Call) (hcall : call.isClose = false) :
    (c.log call).connection i = c.connection i := by
  simp [connection, log, hcall]

theorem connection_log_close (error : Error) :
    (c.log (.close error)).connection i =
      { c.connection i with reports := (c.connection i).reports + 1 } := by
  simp [connection, log, Call.isClose]

theorem connection_uvClose :
    (c.uvClose i).connection i = { c.connection i with closing := true } := by
  simp [connection, uvClose, onStream]

theorem connection_disown :
    (c.disown i).connection i = { c.connection i with held := false, owned := false } := by
  simp [connection, disown, onStream]

section

variable (h : c.OneStream i)
include h

theorem OneStream.enter (frame : Frame) (hframe : frame.Concerns i) (calls : List Call) :
    OneStream { c with calls := calls, running := some frame } i := by
  refine { h with running := fun other hother => ?_ }
  cases hother
  exact hframe

theorem OneStream.refines_onData (hrest : c.running = none)
    (hreading : (c.streams i).reading = true) (size : UInt64) :
    c.Refines i (.loop (.data i size)) (c.onData i size) := by
  have hclean : c.Clean (.loop (.data i size)) := trivial
  have hadvanced : ∀ calls, OneStream { c with
      calls := calls, dataOffset := c.dataOffset + size } i := fun _ => { h with }
  unfold TcpClient.onData
  split
  · exact ⟨hadvanced c.calls, .stay, takes_stay rfl, iff_of_true hclean trivial⟩
  · cases hcallback : c.receiveCallback with
    | null => exact ⟨hadvanced c.calls, .stay, takes_stay rfl, iff_of_true hclean trivial⟩
    | silent =>
        refine ⟨hadvanced _, .stay, takes_stay ?_, iff_of_true hclean trivial⟩
        exact connection_log (c := c) (.receive i c.dataOffset size) rfl
    | user =>
        refine ⟨h.enter (.received i size) trivial _, .enter, ?_, iff_of_true hclean trivial⟩
        simp [Takes, invoke, connection, log, Connection.act, hrest, h.reading hreading,
          Frame.within, Call.isClose]

/-- The close callback is never null here: it is called, and the user may act in it. -/
theorem OneStream.report (error : Error) (frame : Frame) (hframe : frame.Concerns i)
    (next : TcpClient → TcpClient) (hnext : (next (c.log (.close error))).OneStream i) :
    (c.invoke c.closeCallback (.close error) frame next).OneStream i ∧
      (c.invoke c.closeCallback (.close error) frame next).connection i =
        if c.closeCallback = .user then
          { c.connection i with
            reports := (c.connection i).reports + 1
            within := frame.within }
        else (next (c.log (.close error))).connection i := by
  cases hcallback : c.closeCallback with
  | null => exact absurd hcallback h.closeCallback
  | silent => exact ⟨hnext, rfl⟩
  | user =>
      refine ⟨h.enter frame hframe _, ?_⟩
      simp [invoke, connection, log, Call.isClose]

theorem OneStream.log (call : Call) : (c.log call).OneStream i := { h with }

theorem OneStream.disown : (c.disown i).OneStream i :=
  (h.onStream (f := fun h => { h with owned := false }) h.connecting h.reading rfl).release

section

variable (hrest : c.running = none)
include hrest

theorem OneStream.onFailure (hopen : (c.streams i).closing = false) (error socketError : Error) :
    (c.onFailure error socketError).OneStream i ∧
      c.Takes i (.fail (c.closeCallback = .user)) (c.onFailure error socketError) := by
  cases hstream : c.tcpStream with
  | none =>
      have hflag : c.isOpen = false := h.isOpen.trans (congrArg Option.isSome hstream)
      rw [onFailure_none hstream h.closeCallback hflag]
      refine ⟨{ h with }, ?_⟩
      simp [Takes, connection, Connection.act, hrest, hopen, hstream, nullOperation]
  | some j =>
      obtain ⟨rfl, _⟩ := h.tcpStream j hstream
      rw [onFailure_some hstream h.closeCallback, TcpClient.onReadError]
      obtain ⟨hafter, hconnection⟩ := h.disown.report _ (.readFailed j) rfl
        (TcpClient.uvClose · j) ((h.disown.log _).uvClose rfl)
      have hguard : (c.connection j).within = .idle ∧ (c.connection j).closing = false :=
        ⟨by simp [connection, hrest], hopen⟩
      have hheld : (c.connection j).held = true := congrArg Option.isSome hstream
      refine ⟨hafter, ?_⟩
      rw [Takes, hconnection, connection_uvClose, connection_log_close, connection_disown,
        Connection.act, if_pos hguard, hheld, if_pos rfl]
      cases hcallback : c.closeCallback with
      | null => exact absurd hcallback h.closeCallback
      | silent => simp [TcpClient.disown, TcpClient.onStream, hcallback, hguard]
      | user => simp [TcpClient.disown, TcpClient.onStream, hcallback, hguard, Frame.within]

theorem OneStream.refines_onShutdown {status : Error} (hpending : 0 < (c.streams i).shutdowns)
    (hstatus : CompletesWith (c.streams i) status) :
    c.Refines i (.loop (.shutdown i status))
      ((c.onStream i fun h => { h with shutdowns := h.shutdowns - 1 }).onShutdown i status) := by
  have hended : (c.onStream i fun h => { h with shutdowns := h.shutdowns - 1 }).OneStream i :=
    h.onStream h.connecting h.reading rfl
  have hview : (c.onStream i fun h => { h with shutdowns := h.shutdowns - 1 }).connection i =
      { c.connection i with shutdowns := (c.connection i).shutdowns - 1 } := by
    simp [connection, TcpClient.onStream]
  have hguard : (c.connection i).within = .idle ∧ 0 < (c.connection i).shutdowns ∧
      ((c.connection i).closing = true → (!status.isError) = false) := by
    refine ⟨by simp [connection, hrest], hpending, fun hclosing => ?_⟩
    simp [Error.isError, hstatus hclosing]
  generalize (c.onStream i fun h => { h with shutdowns := h.shutdowns - 1 }) = d at hended hview ⊢
  unfold TcpClient.onShutdown
  cases herror : status.isError with
  | false =>
      obtain ⟨hafter, hconnection⟩ := hended.refines_finishShutdown
      refine ⟨hafter, .shutdown true false, ?_, by simp [Clean, Connection.Clean, herror]⟩
      rw [herror, Bool.not_false] at hguard
      rw [Takes, if_neg Bool.false_ne_true, hconnection, hview, Connection.act, if_pos hguard]
      rfl
  | true =>
      have hfinished := (hended.log (.close status)).refines_finishShutdown
      obtain ⟨hafter, hconnection⟩ := hended.report status (.shutdownFailed i) rfl
        (TcpClient.finishShutdown · i) hfinished.1
      refine ⟨hafter, .shutdown false (d.closeCallback = .user), ?_,
        by simp [Clean, Connection.Clean, herror]⟩
      rw [herror, Bool.not_true] at hguard
      rw [Takes, if_pos rfl, hconnection, hfinished.2, connection_log_close, hview,
        Connection.act, if_pos hguard]
      cases hcallback : d.closeCallback <;> rfl

theorem OneStream.refines_onClose (hclosing : (c.streams i).closing = true)
    (hclosed : (c.streams i).closed = false) (hshutdowns : (c.streams i).shutdowns = 0) :
    c.Refines i (.loop (.closed i))
      ((c.onStream i fun h => { h with closed := true }).onClose i) := by
  have hended : (c.onStream i fun h => { h with closed := true }).OneStream i :=
    h.onStream h.connecting h.reading rfl
  have hview : (c.onStream i fun h => { h with closed := true }).connection i =
      { c.connection i with closed := true } := by
    simp [connection, TcpClient.onStream]
  have hguard : (c.connection i).within = .idle ∧ (c.connection i).closing = true ∧
      (c.connection i).closed = false ∧ (c.connection i).shutdowns = 0 :=
    ⟨by simp [connection, hrest], hclosing, hclosed, hshutdowns⟩
  have howned : ((c.onStream i fun h => { h with closed := true }).streams i).owned =
      (c.connection i).owned := by
    simp [connection, TcpClient.onStream]
  have hclean : c.Clean (.loop (.closed i)) := trivial
  generalize (c.onStream i fun h => { h with closed := true }) = d at hended hview howned ⊢
  unfold TcpClient.onClose
  rw [howned]
  cases howner : (c.connection i).owned with
  | false =>
      refine ⟨hended, .close false, ?_, iff_of_true hclean trivial⟩
      rw [Takes, if_neg Bool.false_ne_true, hview, Connection.act, if_pos hguard]
      simp [howner]
  | true =>
      obtain ⟨hafter, hconnection⟩ := hended.report {} .closed trivial id (hended.log _)
      refine ⟨hafter, .close (d.closeCallback = .user), ?_, iff_of_true hclean trivial⟩
      rw [Takes, if_pos rfl, hconnection, id, connection_log_close, hview, Connection.act,
        if_pos hguard]
      cases hcallback : d.closeCallback <;> simp [Frame.within, hguard.1, howner]

theorem OneStream.refines_handle {completion : Completion} (hstep : c.handle completion = some c') :
    c.Refines i (.loop completion) c' := by
  cases completion with
  | scheduled uv => simp [handle, h.scheduled] at hstep
  | connected j status readStart =>
      obtain ⟨⟨_, hconnecting, _⟩, _⟩ := by simpa [handle] using hstep
      by_cases hj : j = i
      · simp [hj, h.connecting] at hconnecting
      · simp [(h.others j hj).connecting] at hconnecting
  | data j size =>
      obtain ⟨hreading, rfl⟩ := by simpa [handle] using hstep
      by_cases hj : j = i
      · subst hj
        exact (h.resetConnectReq none).refines_onData hrest hreading size
      · simp [(h.others j hj).reading] at hreading
  | failure j error socketError =>
      obtain ⟨⟨hreading, _⟩, rfl⟩ := by simpa [handle] using hstep
      by_cases hj : j = i
      · subst hj
        have hopen := h.reading hreading
        have hstopped : ((c.resetConnectReq none).onStream j
            fun h => { h with reading := false }).OneStream j :=
          (h.resetConnectReq none).onStream h.connecting nofun rfl
        have hview : ((c.resetConnectReq none).onStream j
            fun h => { h with reading := false }).connection j = c.connection j := by
          simp [connection, TcpClient.onStream, TcpClient.resetConnectReq]
        obtain ⟨hafter, htakes⟩ := hstopped.onFailure hrest
          (by simpa [TcpClient.onStream, TcpClient.resetConnectReq] using hopen) error socketError
        rw [Takes, hview] at htakes
        exact ⟨hafter, _, htakes, Iff.rfl⟩
      · simp [(h.others j hj).reading] at hreading
  | shutdown j status =>
      obtain ⟨⟨hpending, hstatus⟩, rfl⟩ := by simpa [handle] using hstep
      by_cases hj : j = i
      · subst hj
        exact h.refines_onShutdown hrest hpending hstatus
      · simp [(h.others j hj).shutdowns] at hpending
  | closed j =>
      obtain ⟨⟨hclosing, hclosed, _, hshutdowns⟩, rfl⟩ := by simpa [handle] using hstep
      by_cases hj : j = i
      · subst hj
        exact h.refines_onClose hrest hclosing hclosed hshutdowns
      · simp [(h.others j hj).closing hclosing] at hclosed

end

end

def WithoutConnect (_ : TcpClient) : Event → Prop
  | .call (.connect _) => False
  | _ => True

instance (c : TcpClient) (e : Event) : Decidable (c.WithoutConnect e) := by
  unfold WithoutConnect
  split <;> infer_instance

theorem OneStream.refines (h : c.OneStream i) (hwf : (c.connection i).WellFormed) {e : Event}
    (hdomain : c.WithoutConnect e) (hstep : c.step e = some c') : c.Refines i e c' := by
  cases e with
  | call user =>
      cases hstep
      refine h.refines_apply ?_
      rintro args rfl
      exact hdomain
  | leave =>
      rw [step] at hstep
      split at hstep
      · cases hstep
      · rename_i frame hrunning
        cases hstep
        exact h.refines_leave hwf hrunning
  | loop completion =>
      obtain ⟨hrest, hstep⟩ := by simpa [step] using hstep
      exact h.refines_handle hrest hstep

/-! ## Runs -/

/-- Stream `i` is connected and read from, or the connect callback runs in which the user learns
it; no other stream is left, and there is a close callback. -/
structure Established (c : TcpClient) (i : Nat) : Prop where
  oneStream : c.OneStream i
  tcpStream : c.tcpStream = some i
  owned : (c.streams i).owned = true
  closed : (c.streams i).closed = false
  shutdowns : (c.streams i).shutdowns = 0
  running : c.running = none ∨ ∃ readStart, c.running = some (.connected i readStart)
  nullOperations : c.nullOperations = 0

def reports (c : TcpClient) : Nat := c.calls.countP Call.isClose

def SettledAt (c : TcpClient) (i : Nat) : Prop :=
  (c.streams i).closed = true ∧ (c.streams i).shutdowns = 0 ∧ c.running = none

instance (c : TcpClient) (i : Nat) : Decidable (c.SettledAt i) :=
  inferInstanceAs (Decidable (_ ∧ _ ∧ _))

structure Has (P : Connection → Prop) (i : Nat) (c : TcpClient) : Prop where
  oneStream : c.OneStream i
  wellFormed : (c.connection i).WellFormed
  property : P (c.connection i)

/-- `n` ends were reported before and the connection is on its way to end well. -/
def OnWay (n : Nat) (k : Connection) : Prop := k.Stage n ∧ k.nullOperations = 0

def OffWay (n : Nat) (k : Connection) : Prop := k.Doomed n ∧ n ≤ k.reports

variable {n : Nat}

/-- What the connection's steps keep or reach, the client's steps do. -/
theorem Has.step {P Q : Connection → Prop} (h : Has P i c) {e : Event} (good : Prop)
    (hact : ∀ k k' a, k.WellFormed → P k → (good ↔ k.Clean a) → k.act a = some k' → Q k')
    (hgood : c.Clean e ↔ good)
    (hstep : restrict WithoutConnect TcpClient.step c e = some c') : Has Q i c' := by
  obtain ⟨hdomain, hstep⟩ := restrict_eq_some.mp hstep
  obtain ⟨hone, a, htakes, hclean⟩ := h.oneStream.refines h.wellFormed hdomain hstep
  exact ⟨hone, Connection.act_wellFormed h.wellFormed htakes,
    hact _ _ a h.wellFormed h.property (hgood.symm.trans hclean) htakes⟩

theorem Established.onWay (h : c.Established i) : Has (OnWay c.reports) i c := by
  have hopen := (h.oneStream.tcpStream i h.tcpStream).2
  have hwithin : (c.connection i).within = .idle ∨ (c.connection i).within = .other := by
    rcases h.running with hrest | ⟨readStart, hrunning⟩
    · exact .inl (by simp [connection, hrest])
    · exact .inr (by simp [connection, hrunning, Frame.within])
  refine ⟨h.oneStream, ⟨fun _ => ⟨hopen, h.owned, h.closed⟩, ?_, ?_⟩, .live ?_ ?_ hwithin rfl,
    h.nullOperations⟩
  · intro hclosed
    exact nomatch h.closed.symm.trans hclosed
  · intro hfailing
    rcases hwithin with hidle | hother
    · exact nomatch hidle.symm.trans hfailing
    · exact nomatch hother.symm.trans hfailing
  · exact congrArg Option.isSome h.tcpStream
  · exact Nat.le_trans (Nat.le_of_eq h.shutdowns) (Nat.zero_le 1)

/-- Every step was clean and the connection is on its way, or not every step was, and it is off. -/
theorem Has.run (h : Has (OnWay n) i c) {t : TcpClient} {es : List Event}
    (hrun : exec (restrict WithoutConnect TcpClient.step) c es = some t) :
    (Along (restrict WithoutConnect TcpClient.step) Clean c es ∧ Has (OnWay n) i t) ∨
      (¬ Along (restrict WithoutConnect TcpClient.step) Clean c es ∧ Has (OffWay n) i t) := by
  refine along_or_bad ?_ ?_ ?_ h hrun
  · intro c e c' h hgood hstep
    refine h.step True ?_ (iff_of_true hgood trivial) hstep
    rintro k k' a hwf ⟨hstage, hnull⟩ hclean hact
    obtain ⟨hstage', hnull'⟩ := Connection.act_stage hstage hwf (hclean.mp trivial) hact
    exact ⟨hstage', hnull'.trans hnull⟩
  · intro c e c' h hbad hstep
    refine h.step False ?_ (iff_of_false hbad id) hstep
    rintro k k' a hwf ⟨hstage, _⟩ hclean hact
    refine ⟨Connection.doomed_of_not_clean hstage hwf (fun ha => hclean.mpr ha) hact, ?_⟩
    exact Nat.le_trans hstage.reports_le.1 (Connection.act_monotone hact).1
  · intro c e c' h hstep
    refine h.step (c.Clean e) ?_ Iff.rfl hstep
    rintro k k' a hwf ⟨hdoomed, hreports⟩ _ hact
    exact ⟨Connection.act_doomed hdoomed hwf hreports hact,
      Nat.le_trans hreports (Connection.act_monotone hact).1⟩

/-- In every run from an established connection without another connect: clean steps never use the
null stream and report the end at most once, and when the connection is settled, it was reported
exactly once without the null stream exactly when every step was clean. -/
theorem end_reported_once_iff {i : Nat} {c t : TcpClient} {es : List Event}
    (hestablished : c.Established i)
    (h : exec (restrict WithoutConnect step) c es = some t) :
    (Along (restrict WithoutConnect step) Clean c es →
      t.nullOperations = 0 ∧ t.reports ≤ c.reports + 1) ∧
    (t.SettledAt i →
      ((t.reports = c.reports + 1 ∧ t.nullOperations = 0) ↔
        Along (restrict WithoutConnect step) Clean c es)) := by
  rcases hestablished.onWay.run h with ⟨hall, hway⟩ | ⟨hnot, hoff⟩
  · obtain ⟨hstage, hnull⟩ := hway.property
    refine ⟨fun _ => ⟨hnull, hstage.reports_le.2⟩, fun hsettled => iff_of_true ⟨?_, hnull⟩ hall⟩
    exact hstage.reports_of_closed hway.wellFormed hsettled.1
  · refine ⟨fun hall => absurd hall hnot, fun ⟨hclosed, hshutdowns, hrest⟩ => ?_⟩
    refine iff_of_false ?_ hnot
    exact hoff.property.1.not_once hoff.wellFormed hclosed hshutdowns
      (by simp [connection, hrest])

/-- A client after a first connect with a close callback that does nothing. -/
def connectedClient : TcpClient :=
  { tcpStream := some 0
    isOpen := true
    connectReq := some 0
    closeCallback := .silent
    streams := Function.update (fun _ => {}) 0 { connected := true, reading := true }
    created := 1
    calls := [] }

theorem exec_connecting :
    exec step {} (connecting { closeCallback := .silent }) = some connectedClient := by
  simp [connecting, exec, step, apply, connect, tearDown, handle, connectImpl, initStream,
    resetConnectReq, setCallbacks, CompletesWith, onConnect, finishConnect, dropCallbacks, invoke,
    startRead, onStream, connectedClient]

theorem established_connectedClient : connectedClient.Established 0 where
  oneStream :=
    { closeCallback := nofun
      scheduled := rfl
      others := by
        intro j hj
        have hempty : connectedClient.streams j = {} := by simp [connectedClient, hj]
        rw [hempty]
        exact ⟨rfl, rfl, rfl, nofun⟩
      connecting := rfl
      reading := fun _ => rfl
      tcpStream := fun j hj => ⟨(Option.some.inj hj).symm, rfl⟩
      isOpen := rfl
      running := fun _ hframe => nomatch hframe }
  tcpStream := rfl
  owned := rfl
  closed := rfl
  shutdowns := rfl
  running := .inl rfl
  nullOperations := rfl

/-- The user asks for a shutdown, and the peer ends the connection before it is completed. -/
def endedInShutdown : List Event :=
  [.call (.shutdown true), .loop (.failure 0 (.ofCode .endOfFile) {}),
    .loop (.shutdown 0 (.ofCode .operationCanceled)), .loop (.closed 0)]

def closedInShutdown : List Event :=
  [.call (.shutdown true), .call .close, .loop (.shutdown 0 (.ofCode .operationCanceled)),
    .loop (.closed 0)]

theorem end_reported_twice :
    connectedClient.Established 0 ∧
      (exec (restrict WithoutConnect step) connectedClient endedInShutdown).map
        (fun t => (decide (t.SettledAt 0), t.reports, t.nullOperations)) = some (true, 2, 1) ∧
      (exec (restrict WithoutConnect step) connectedClient closedInShutdown).map
        (fun t => (decide (t.SettledAt 0), t.reports, t.nullOperations)) = some (true, 2, 1) := by
  refine ⟨established_connectedClient, ?_⟩
  decide +kernel

def shutDown : List Event :=
  [.call (.shutdown true), .call (.shutdown false), .loop (.data 0 5), .loop (.shutdown 0 {}),
    .call .close, .loop (.closed 0), .call (.closeWithReset true)]

theorem end_reported_once_iff_shutDown :
    ∃ t, exec (restrict WithoutConnect step) connectedClient shutDown = some t ∧ t.SettledAt 0 ∧
      t.reports = 1 ∧ t.nullOperations = 0 := by
  have hsettled : (exec (restrict WithoutConnect step) connectedClient shutDown).map
      (fun t => decide (t.SettledAt 0)) = some true := by
    decide +kernel
  obtain ⟨t, hrun, hdecided⟩ := Option.map_eq_some_iff.mp hsettled
  have hclean : Along (restrict WithoutConnect step) Clean connectedClient shutDown := by
    decide +kernel
  have hend := of_decide_eq_true hdecided
  obtain ⟨_, hiff⟩ := end_reported_once_iff established_connectedClient hrun
  exact ⟨t, hrun, hend, (hiff hend).mpr hclean⟩

end TcpClient

end TarmIo.Net.Tcp
