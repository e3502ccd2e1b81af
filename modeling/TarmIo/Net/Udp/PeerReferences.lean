import TarmIo.Net.Udp.FailedStart
import TarmIo.Net.Udp.PeerTracking

/-!
# The peers that a server refers to

A server refers to a peer through `m_peers` or the backlog, or, without peer tracking, while
the peer's receive callback runs. As long as no peer is closed in a new-peer or a timeout
callback, a server never takes up again a peer that it has let go of: what it refers to
after a step it referred to before, unless the step made the peer.
-/

namespace TarmIo.Net

open Foundation BacklogWithTimeout

variable {ι : Type*}

namespace UdpServer

def Refers (v : UdpServer ι) (p : UdpPeer ι) : Prop :=
  v.peers p.id = some p ∨ (∃ r ∈ v.peersBacklog, p ∈ r.backlog.items.flatten) ∨
    (v.running = .data p ∧ v.peersBacklog.isNone = true)

/-- The peers that are referred to afterwards are older ones or were made meanwhile. -/
structure LetsGo (v v' : UdpServer ι) : Prop where
  created_le : v.created ≤ v'.created
  refers : ∀ p, v'.Refers p → v.Refers p ∨ (v.created ≤ p.serial ∧ p.serial < v'.created)

def Stage (r : Reentrant (UdpPeer ι)) : Running ι → Prop
  | .idle => True
  | .newPeer _ => r.AtRest
  | .data _ => r.AtRest
  | .timeout _ _ => True
  | .timeoutInAdd _ _ => r.walk = none ∧ r.callbacks = 1

/-- Only a tracking server has a new-peer callback to run. -/
structure Orderly [DecidableEq ι] (v : UdpServer ι) : Prop where
  backlog : ∀ r, v.peersBacklog = some r → r.Sound ∧ Stage r v.running
  tracking : ∀ p, v.running = .newPeer p → v.peersBacklog ≠ none

variable {v v' v'' : UdpServer ι} {r r' : Reentrant (UdpPeer ι)} {p : UdpPeer ι}

theorem LetsGo.trans (h : LetsGo v v') (h' : LetsGo v' v'') : LetsGo v v'' where
  created_le := h.created_le.trans h'.created_le
  refers p hp := by
    have hle := h.created_le
    have hle' := h'.created_le
    rcases h'.refers p hp with hbefore | ⟨hfrom, hto⟩
    · rcases h.refers p hbefore with hfirst | ⟨hfrom, hto⟩
      · exact .inl hfirst
      · exact .inr ⟨hfrom, by omega⟩
    · exact .inr ⟨by omega, hto⟩

/-- A step that makes no peer is judged container by container. -/
theorem LetsGo.of_frame (hcreated : v'.created = v.created)
    (hpeers : ∀ p, v'.peers p.id = some p → v.Refers p)
    (hbacklog : ∀ r, v'.peersBacklog = some r → ∀ p ∈ r.backlog.items.flatten, v.Refers p)
    (hrunning : ∀ p, v'.running = .data p → v'.peersBacklog.isNone = true → v.Refers p) :
    LetsGo v v' where
  created_le := hcreated.ge
  refers p hp := by
    rcases hp with hp | ⟨r, hr, hp⟩ | ⟨hp, hnone⟩
    · exact .inl (hpeers p hp)
    · exact .inl (hbacklog r hr p hp)
    · exact .inl (hrunning p hp hnone)

/-- The containers stay, and no untracked peer comes in. -/
theorem LetsGo.of_same (hcreated : v'.created = v.created) (hpeers : v'.peers = v.peers)
    (hbacklog : v'.peersBacklog = v.peersBacklog)
    (hrunning : ∀ p, v'.running = .data p → v'.peersBacklog.isNone = true →
      v.running = .data p) : LetsGo v v' := by
  refine .of_frame hcreated (fun p hp => ?_) (fun r hr p hp => ?_) fun p hp hnone => ?_
  · exact .inl (hpeers ▸ hp)
  · exact .inr (.inl ⟨r, hbacklog ▸ hr, hp⟩)
  · exact .inr (.inr ⟨hrunning p hp hnone, hbacklog ▸ hnone⟩)

theorem Stage.of_frame {running : Running ι} (h : Stage r running) (hwalk : r'.walk = r.walk)
    (hcallbacks : r'.callbacks = r.callbacks) : Stage r' running := by
  cases running with
  | idle => exact trivial
  | newPeer p => exact ⟨hwalk.trans h.1, hcallbacks.trans h.2⟩
  | data p => exact ⟨hwalk.trans h.1, hcallbacks.trans h.2⟩
  | timeout p it => exact trivial
  | timeoutInAdd p it => exact ⟨hwalk.trans h.1, hcallbacks.trans h.2⟩

variable [DecidableEq ι]

theorem Orderly.of_same (h : Orderly v) (hrunning : v'.running = v.running)
    (hbacklog : v'.peersBacklog = v.peersBacklog) : Orderly v' where
  backlog r hr := by
    rw [hrunning]
    exact h.backlog r (hbacklog ▸ hr)
  tracking p hp := by
    rw [hbacklog]
    exact h.tracking p (hrunning ▸ hp)

/-! ## Packets -/

variable {id : ι} {addedAt : UInt64}

theorem deliver_next (hr : v.peersBacklog = some r) (hsound : r.Sound) (hrest : r.AtRest) :
    Orderly (v.deliver p) ∧ LetsGo v (v.deliver p) := by
  have hbacklog : (v.deliver p).peersBacklog = some (stamp p r) := by
    rw [deliver, hr, Option.map_some]
  refine ⟨⟨fun r' hr' => ?_, fun q hq => by cases hq⟩, ?_⟩
  · cases hbacklog.symm.trans hr'
    exact ⟨stamp_sound hsound p, hrest⟩
  · refine .of_frame rfl (fun q hq => .inl hq) (fun r' hr' q hq => ?_) fun q _ hnone => ?_
    · cases hbacklog.symm.trans hr'
      exact .inr (.inl ⟨r, hr, hq⟩)
    · rw [hbacklog] at hnone
      cases hnone

theorem announce_next (hr : v.peersBacklog = some r) (hsound : r.Sound) (hrest : r.AtRest) :
    Orderly (v.announce p) ∧ LetsGo v (v.announce p) := by
  rw [announce]
  split
  next =>
      refine ⟨⟨fun r' hr' => ?_, fun q _ hnone => ?_⟩, .of_same rfl rfl rfl fun q hq => by cases hq⟩
      · cases hr.symm.trans hr'
        exact ⟨hsound, hrest⟩
      · cases hr.symm.trans hnone
  next => exact deliver_next hr hsound hrest

/-- A new peer is in the table and the backlog, and no callback has been called yet. -/
theorem LetsGo.made (hr : v.peersBacklog = some r) (backlog : Reentrant (UdpPeer ι)) {id : ι}
    (hitems : ∀ q ∈ backlog.backlog.items.flatten,
      q ∈ r.backlog.items.flatten ∨ q = ⟨id, v.created⟩) :
    LetsGo v
      { v with
        peers := Function.update v.peers id (some ⟨id, v.created⟩)
        peersBacklog := some backlog
        created := v.created + 1 } := by
  refine ⟨Nat.le_succ _, fun q hq => ?_⟩
  have hnew : q = ⟨id, v.created⟩ → v.created ≤ q.serial ∧ q.serial < v.created + 1 := by
    rintro rfl
    exact ⟨le_rfl, Nat.lt_succ_self _⟩
  rcases hq with hq | ⟨_, hmem, hq⟩ | ⟨_, hnone⟩
  · change Function.update v.peers id _ q.id = some q at hq
    by_cases hid : q.id = id
    · rw [hid, Function.update_self, Option.some.injEq] at hq
      exact .inr (hnew hq.symm)
    · rw [Function.update_of_ne hid] at hq
      exact .inl (.inl hq)
  · cases hmem
    exact (hitems q hq).imp (fun hq => .inr (.inl ⟨r, hr, hq⟩)) hnew
  · cases hnone

theorem register_next (hbetween : v.BetweenCallbacks) (hr : v.peersBacklog = some r)
    (hsound : r.Sound) (hregister : v.register r ⟨id, v.created⟩ addedAt = some v') :
    Orderly v' ∧ LetsGo v v' := by
  obtain ⟨r₁, hadvance, hregister⟩ := Option.bind_eq_some_iff.mp hregister
  obtain ⟨r₂, hadd, rfl⟩ := Option.map_eq_some_iff.mp hregister
  have hstamped := stamp_sound hsound ⟨id, v.created⟩
  have hsound₁ := Reentrant.step_sound (e := .advance _ _) hstamped trivial hadvance
  have hsound₂ := Reentrant.step_sound (e := .addItem _) hsound₁ trivial hadd
  have hrest₁ : r₁.AtRest := by
    obtain ⟨_, rfl⟩ := by simpa [Reentrant.step] using hadvance
    exact hbetween.2 r hr
  obtain ⟨hwalk, hcallbacks⟩ := Reentrant.step_addItem_frame hsound₁ hadd
  rw [hrest₁.1] at hwalk
  rw [hrest₁.2] at hcallbacks
  have hmade := LetsGo.made hr r₂ fun q hq => by
    rcases hsound₁.mem_of_step hadd hq with hq | hq
    · exact .inl ((hstamped.mem_of_step hadvance hq).resolve_right (by simp))
    · cases hq
      exact .inr rfl
  dsimp only
  split
  next hexpired =>
      refine ⟨⟨fun r' hr' => ?_, fun q hq => by cases hq⟩,
        hmade.trans (.of_same rfl rfl rfl fun q hq => by cases hq)⟩
      cases hr'
      exact ⟨hsound₂, hwalk, by omega⟩
  next halive =>
      rw [hrest₁.2] at halive
      have hrest₂ : r₂.AtRest := ⟨hwalk, by omega⟩
      obtain ⟨horderly, hgo⟩ := announce_next (p := ⟨id, v.created⟩) (r := r₂)
        (v :=
          { v with
            peers := Function.update v.peers id (some ⟨id, v.created⟩)
            peersBacklog := some r₂
            created := v.created + 1 })
        rfl hsound₂ hrest₂
      exact ⟨horderly, hmade.trans hgo⟩

theorem onDataReceived_next (h : Orderly v) (hbetween : v.BetweenCallbacks)
    (hstep : v.onDataReceived id addedAt = some v') : Orderly v' ∧ LetsGo v v' := by
  have hrefl : Orderly v ∧ LetsGo v v := ⟨h, .of_same rfl rfl rfl fun _ hp _ => hp⟩
  rw [onDataReceived] at hstep
  split at hstep
  next =>
      cases hstep
      exact hrefl
  next =>
      split at hstep
      next hnone =>
          cases hstep
          refine ⟨⟨fun r hr => ?_, fun q hq => by cases hq⟩, Nat.le_succ _, fun q hq => ?_⟩
          · cases hnone.symm.trans hr
          · rcases hq with hq | ⟨r, hr, _⟩ | ⟨hq, _⟩
            · exact .inl (.inl hq)
            · cases hnone.symm.trans hr
            · cases hq
              exact .inr ⟨le_rfl, Nat.lt_succ_self _⟩
      next r hr =>
          have hsound := (h.backlog r hr).1
          split at hstep
          next =>
              cases hstep
              exact hrefl
          next =>
              split at hstep
              next p _ =>
                  cases hstep
                  exact deliver_next hr hsound (hbetween.2 r hr)
              next => exact register_next hbetween hr hsound hstep

/-! ## The other events -/

theorem eq_some_of_update_none {peers : ι → Option (UdpPeer ι)} {q : UdpPeer ι}
    (h : Function.update peers id none q.id = some q) : peers q.id = some q := by
  by_cases hid : q.id = id
  · rw [hid, Function.update_self] at h
    cases h
  · rwa [Function.update_of_ne hid] at h

def Running.isData : Running ι → Bool
  | .idle => false
  | .newPeer _ => false
  | .data _ => true
  | .timeout _ _ => false
  | .timeoutInAdd _ _ => false

def ClosesPeers (v : UdpServer ι) : Prop := v.BetweenCallbacks ∨ v.running.isData = true

instance (v : UdpServer ι) : Decidable v.ClosesPeers := inferInstanceAs (Decidable (_ ∨ _))

theorem Orderly.walk_eq_none (h : Orderly v) (hcloses : v.ClosesPeers)
    (hr : v.peersBacklog = some r) : r.walk = none := by
  rcases hcloses with hbetween | hdata
  · exact (hbetween.2 r hr).1
  · have hstage := (h.backlog r hr).2
    cases hrunning : v.running with
    | data p =>
        rw [hrunning] at hstage
        exact hstage.1
    | _ => simp [hrunning, Running.isData] at hdata

/-- A call of the backlog that adds nothing. -/
theorem track_letsGo {c : Call (UdpPeer ι)} (hr : v.peersBacklog = some r) (hsound : r.Sound)
    (hstep : r.step c = some r') (hadds : ∀ x, c ≠ .addItem x)
    (hcreated : v'.created = v.created)
    (hpeers : ∀ q, v'.peers q.id = some q → v.peers q.id = some q)
    (hbacklog : v'.peersBacklog = some r') : LetsGo v v' := by
  refine .of_frame hcreated (fun q hq => .inl (hpeers q hq)) (fun r'' hr'' q hq => ?_)
    fun q _ hnone => ?_
  · cases hbacklog.symm.trans hr''
    exact .inr (.inl ⟨r, hr, (hsound.mem_of_step hstep hq).resolve_right (hadds q)⟩)
  · rw [hbacklog] at hnone
    cases hnone

theorem closePeer_next (h : Orderly v) (hcloses : v.ClosesPeers)
    (hstep : v.closePeer p = some v') : Orderly v' ∧ LetsGo v v' := by
  rw [closePeer] at hstep
  split at hstep
  next =>
      cases hstep
      exact ⟨h, .of_same rfl rfl rfl fun _ hq _ => hq⟩
  next =>
      split at hstep
      next =>
          cases hstep
          exact ⟨h.of_same rfl rfl, .of_same rfl rfl rfl fun _ hq _ => hq⟩
      next q _ =>
          obtain ⟨t, htrack, rfl⟩ := Option.map_eq_some_iff.mp hstep
          obtain ⟨r, hr, htrack⟩ := Option.bind_eq_some_iff.mp htrack
          obtain ⟨r', hremove, rfl⟩ := Option.map_eq_some_iff.mp htrack
          obtain ⟨hsound, hstage⟩ := h.backlog r hr
          obtain ⟨hwalk, hcallbacks⟩ := Reentrant.step_removeItem_frame hremove
          have hahead : Reentrant.Undisturbed r (.removeItem q) := by
            intro w hw
            cases (h.walk_eq_none hcloses hr).symm.trans hw
          refine ⟨⟨fun r'' hr'' => ?_, fun _ _ hnone => by cases hnone⟩,
            track_letsGo hr hsound hremove (by simp) rfl (fun x hx => ?_) rfl⟩
          · cases hr''
            exact ⟨Reentrant.step_sound hsound hahead hremove, hstage.of_frame hwalk hcallbacks⟩
          · exact eq_some_of_update_none hx

theorem visit_next (h : Orderly v) (hidle : v.running = .idle) (hr : v.peersBacklog = some r)
    (hvisit : v.visit r = some v') : Orderly v' ∧ LetsGo v v' := by
  obtain ⟨r', hstep, rfl⟩ := Option.map_eq_some_iff.mp hvisit
  have hsound := (h.backlog r hr).1
  have hsound' := Reentrant.step_sound (e := .visit) hsound trivial hstep
  have hgo : ∀ w : UdpServer ι, w.created = v.created → w.peers = v.peers →
      w.peersBacklog = some r' → LetsGo v w := by
    intro w hcreated hpeers hbacklog
    exact track_letsGo hr hsound hstep (by simp) hcreated (fun q hq => hpeers ▸ hq) hbacklog
  have hidle' : Orderly { v with peersBacklog := some r' } := by
    refine ⟨fun r'' hr'' => ?_, fun _ _ hnone => by cases hnone⟩
    cases hr''
    change r'.Sound ∧ Stage r' v.running
    rw [hidle]
    exact ⟨hsound', trivial⟩
  split
  next => exact ⟨hidle', hgo _ rfl rfl rfl⟩
  next p _ =>
      split
      next =>
          refine ⟨⟨fun r'' hr'' => ?_, fun _ _ hnone => by cases hnone⟩, hgo _ rfl rfl rfl⟩
          cases hr''
          exact ⟨hsound', trivial⟩
      next => exact ⟨hidle', hgo _ rfl rfl rfl⟩

theorem eraseFound_frame (v : UdpServer ι) (p : UdpPeer ι) (it : Option (UdpPeer ι)) :
    ∃ peers erasedTwice, v.eraseFound p it = { v with peers, erasedTwice } ∧
      ∀ q, peers q.id = some q → v.peers q.id = some q := by
  rw [eraseFound]
  split
  next => exact ⟨_, _, rfl, fun _ hq => hq⟩
  next =>
      split
      next =>
          exact ⟨_, _, rfl, fun _ => eq_some_of_update_none⟩
      next => exact ⟨_, _, rfl, fun _ hq => hq⟩

theorem leave_next (h : Orderly v) (hstep : v.step .leave = some v') :
    Orderly v' ∧ LetsGo v v' := by
  rw [step] at hstep
  split at hstep
  next => cases hstep
  next p hrunning =>
      cases hstep
      obtain ⟨r, hr⟩ := Option.ne_none_iff_exists'.mp (h.tracking p hrunning)
      obtain ⟨hsound, hstage⟩ := h.backlog r hr
      rw [hrunning] at hstage
      exact deliver_next hr hsound hstage
  next =>
      cases hstep
      refine ⟨⟨fun r hr => ⟨(h.backlog r hr).1, trivial⟩, fun _ hq => by cases hq⟩, ?_⟩
      exact .of_same rfl rfl rfl fun _ hq => by cases hq
  next p it hrunning =>
      obtain ⟨t, htrack, rfl⟩ := Option.map_eq_some_iff.mp hstep
      obtain ⟨r, hr, htrack⟩ := Option.bind_eq_some_iff.mp htrack
      obtain ⟨r', hleave, rfl⟩ := Option.map_eq_some_iff.mp htrack
      have hsound := (h.backlog r hr).1
      obtain ⟨peers, erasedTwice, herase, hpeers⟩ :=
        eraseFound_frame { v with peersBacklog := some r' } p it
      rw [herase]
      refine ⟨⟨fun r'' hr'' => ?_, fun _ hq => by cases hq⟩,
        track_letsGo hr hsound hleave (by simp) rfl hpeers rfl⟩
      cases hr''
      exact ⟨Reentrant.step_sound (e := .leave) hsound trivial hleave, trivial⟩
  next p it hrunning =>
      obtain ⟨t, htrack, rfl⟩ := Option.map_eq_some_iff.mp hstep
      obtain ⟨r, hr, htrack⟩ := Option.bind_eq_some_iff.mp htrack
      obtain ⟨r', hleave, rfl⟩ := Option.map_eq_some_iff.mp htrack
      obtain ⟨hsound, hstage⟩ := h.backlog r hr
      rw [hrunning] at hstage
      have hrest : r'.AtRest := by
        obtain ⟨_, rfl⟩ := by simpa [Reentrant.step] using hleave
        exact ⟨hstage.1, by simp [hstage.2]⟩
      obtain ⟨peers, erasedTwice, herase, hpeers⟩ :=
        eraseFound_frame { v with peersBacklog := some r' } p it
      rw [herase]
      have hleft : LetsGo v { v with peersBacklog := some r', peers, erasedTwice } :=
        track_letsGo hr hsound hleave (by simp) rfl hpeers rfl
      obtain ⟨horderly, hgo⟩ := announce_next (p := p)
        (v := { v with peersBacklog := some r', peers, erasedTwice }) rfl
        (Reentrant.step_sound (e := .leave) hsound trivial hleave) hrest
      exact ⟨horderly, hleft.trans hgo⟩

/-- Every step of the server but the close of a peer, which has its own guard. -/
theorem step_next {e : Event ι} (h : Orderly v) (he : ∀ p, e = .closePeer p → v.ClosesPeers)
    (hstep : v.step e = some v') : Orderly v' ∧ LetsGo v v' := by
  cases e with
  | datagram id addedAt =>
      obtain ⟨⟨hbetween, _⟩, hstep⟩ := by simpa [step] using hstep
      exact onDataReceived_next h hbetween hstep
  | closePeer p =>
      obtain ⟨_, hstep⟩ := by simpa [step] using hstep
      exact closePeer_next h (he p rfl) hstep
  | onTimer index =>
      obtain ⟨hbetween, hstep⟩ := by simpa [step] using hstep
      obtain ⟨r, hr, hstep⟩ := Option.bind_eq_some_iff.mp hstep
      obtain ⟨r', htick, rfl⟩ := Option.map_eq_some_iff.mp hstep
      have hsound := (h.backlog r hr).1
      refine ⟨⟨fun r'' hr'' => ?_, fun _ _ hnone => by cases hnone⟩,
        track_letsGo hr hsound htick (by simp) rfl (fun _ hq => hq) rfl⟩
      cases hr''
      change r'.Sound ∧ Stage r' v.running
      rw [hbetween.1]
      exact ⟨Reentrant.step_sound (e := .onTimer _) hsound trivial htick, trivial⟩
  | visit =>
      obtain ⟨hidle, hstep⟩ := by simpa [step] using hstep
      obtain ⟨r, hr, hvisit⟩ := Option.bind_eq_some_iff.mp hstep
      exact visit_next h hidle hr hvisit
  | inactivityOver id =>
      obtain ⟨_, rfl⟩ := by simpa [step] using hstep
      exact ⟨h.of_same rfl rfl, .of_same rfl rfl rfl fun _ hq _ => hq⟩
  | leave => exact leave_next h hstep
  | advance clock =>
      obtain ⟨r, hr, hstep⟩ := Option.bind_eq_some_iff.mp hstep
      obtain ⟨r₀, hr₀, hstep⟩ := Option.bind_eq_some_iff.mp hstep
      cases hr.symm.trans hr₀
      obtain ⟨r', hadvance, rfl⟩ := Option.map_eq_some_iff.mp hstep
      obtain ⟨hsound, hstage⟩ := h.backlog r hr
      refine ⟨⟨fun r'' hr'' => ?_, fun _ _ hnone => by cases hnone⟩,
        track_letsGo hr hsound hadvance (by simp) rfl (fun _ hq => hq) rfl⟩
      cases hr''
      refine ⟨Reentrant.step_sound (e := .advance _ _) hsound trivial hadvance, ?_⟩
      obtain ⟨_, rfl⟩ := by simpa [Reentrant.step] using hadvance
      exact hstage.of_frame rfl rfl

end UdpServer

namespace NamedUdpServer

open UdpServer

/-! ## Starting and closing -/

theorem not_mem_start (entityTimeout clock : UInt64) (itemTime : UdpPeer ι → UInt64)
    (p : UdpPeer ι) :
    p ∉ (Reentrant.start entityTimeout clock itemTime).backlog.items.flatten := by
  intro hp
  obtain ⟨i, hi⟩ := mem_flatten_iff.mp hp
  rw [Reentrant.start, create, bucket_replicate_nil] at hi
  cases hi

variable [DecidableEq ι] {s : NamedUdpServer ι}

section

variable (h : Orderly s.server)
include h

theorem startReceive_next (args : NamedReceiveArgs) :
    Orderly (startReceive args s).2.server ∧ LetsGo s.server (startReceive args s).2.server := by
  have hserver := congrArg Prod.snd (startReceive_server args s)
  change (startReceive args s).2.server = _ at hserver
  obtain ⟨handle, hasDataCallback, connectionInProgress, hframe⟩ :=
    UdpServer.startReceive_frame args.unnamed s.server
  rw [hserver, hframe]
  exact ⟨h.of_same rfl rfl, .of_same rfl rfl rfl fun _ hq _ => hq⟩

theorem start_next (hbetween : s.server.BetweenCallbacks) (call : Start) :
    Orderly (s.start call).2.server ∧ LetsGo s.server (s.start call).2.server := by
  cases call with
  | untracked args => exact startReceive_next h args
  | tracked args =>
      by_cases hinstalls : s.Installs (.tracked args)
      · rw [start, startReceiveTracked_installs hinstalls]
        have hinstalled : Orderly (s.installTracking args).server := by
          refine ⟨fun r hr => ?_, fun _ _ hnone => by cases hnone⟩
          cases hr
          change _ ∧ Stage _ s.server.running
          rw [hbetween.1]
          exact ⟨Reentrant.start_sound _ _ _, trivial⟩
        have hgo : LetsGo s.server (s.installTracking args).server := by
          refine .of_frame rfl (fun _ hq => .inl hq) (fun r hr q hq => ?_) fun _ _ hnone => ?_
          · cases hr
            exact absurd hq (not_mem_start _ _ _ q)
          · cases hnone
        obtain ⟨horderly, hgo'⟩ := startReceive_next hinstalled args.toNamedReceiveArgs
        exact ⟨horderly, hgo.trans hgo'⟩
      · rw [start, startReceiveTracked_refused hinstalls]
        exact ⟨h, .of_same rfl rfl rfl fun _ hq _ => hq⟩

theorem close_next (withCallback : Bool) :
    Orderly (s.close withCallback).server ∧ LetsGo s.server (s.close withCallback).server := by
  rw [close, UdpServer.close]
  split
  next => exact ⟨h.of_same rfl rfl, .of_same rfl rfl rfl fun _ hq _ => hq⟩
  next => exact ⟨h, .of_same rfl rfl rfl fun _ hq _ => hq⟩

theorem onClose_next : Orderly s.onClose.server ∧ LetsGo s.server s.onClose.server := by
  rw [onClose]
  split
  next => exact ⟨h.of_same rfl rfl, .of_same rfl rfl rfl fun _ hq _ => hq⟩
  next => exact ⟨h.of_same rfl rfl, .of_same rfl rfl rfl fun _ hq _ => hq⟩

end

theorem closeCallbackReturns_next (hbetween : s.server.BetweenCallbacks) :
    Orderly s.closeCallbackReturns.server ∧
      LetsGo s.server s.closeCallbackReturns.server := by
  refine ⟨⟨fun r hr => (by cases hr), fun q hq => ?_⟩, ?_⟩
  · cases hbetween.1.symm.trans hq
  · refine .of_frame rfl (fun q hq => (by cases hq)) (fun r hr => (by cases hr)) fun q hq _ => ?_
    cases hbetween.1.symm.trans hq

end NamedUdpServer

end TarmIo.Net
