import TarmIo.Foundation.KeyedTable
import TarmIo.Net.Udp.UdpServer

/-!
# The three containers of a tracking server

Between the callbacks of the loop the backlog holds exactly the peers of `m_peers`, and no
closed peer is among them, in every run in which
- the new-peer callback and the timeout callback do not close the peer they are called for,
- no peer is closed whose entry in the walked bucket the backlog's loop has passed, and
- a new peer is in the backlog before its timeout has gone by.

A peer closed in its own new-peer callback gets its data nevertheless, and one closed in its own
timeout callback has its entry in `m_peers` erased twice.
-/

namespace TarmIo.Net.UdpServer

open Foundation BacklogWithTimeout

variable {ι : Type*}

/-! ## What is kept -/

/-- The peer is to be in the backlog: it is in the table, and its timeout callback does not run. -/
def Active (s : UdpServer ι) (p : UdpPeer ι) : Prop :=
  s.peers p.id = some p ∧ ∀ it, s.running ≠ .timeout p it

def Phase (peers : ι → Option (UdpPeer ι)) (r : Reentrant (UdpPeer ι)) : Running ι → Prop
  | .idle => r.callbacks = 0
  | .newPeer p => r.AtRest ∧ peers p.id = some p
  | .data _ => r.AtRest
  | .timeout p it => r.callbacks = 1 ∧ peers p.id = some p ∧ it = some p
  | .timeoutInAdd _ _ => False

variable {s s' : UdpServer ι} {r r' : Reentrant (UdpPeer ι)} {p : UdpPeer ι}

theorem Phase.keep {peers peers' : ι → Option (UdpPeer ι)} {running : Running ι}
    (h : Phase peers r running) (hwalk : r'.walk = r.walk) (hcallbacks : r'.callbacks = r.callbacks)
    (hnewPeer : ∀ x, running = .newPeer x → peers' x.id = peers x.id)
    (htimeout : ∀ x it, running = .timeout x it → peers' x.id = peers x.id) :
    Phase peers' r' running := by
  have hrest : r.AtRest → r'.AtRest := fun h => ⟨hwalk.trans h.1, hcallbacks.trans h.2⟩
  cases running with
  | idle => exact hcallbacks.trans h
  | newPeer x => exact ⟨hrest h.1, (hnewPeer x rfl).trans h.2⟩
  | data x => exact hrest h
  | timeout x it => exact ⟨hcallbacks.trans h.1, (htimeout x it rfl).trans h.2.1, h.2.2⟩
  | timeoutInAdd x it => exact h

variable [DecidableEq ι]

structure Tracks (s : UdpServer ι) (r : Reentrant (UdpPeer ι)) : Prop where
  installed : s.peersBacklog = some r
  sound : r.Sound
  keyed : Keyed UdpPeer.id s.peers
  held : ∀ p, Reentrant.life p r.history = some true ↔ s.Active p
  disjoint : ∀ id, s.inactivePeers id = true → s.peers id = none
  silent : ∀ c ∈ s.calls, c.callback ≠ .newPeer → c.inactive = false
  erasedOnce : s.erasedTwice = false
  phase : Phase s.peers r s.running

theorem Tracks.inactive_of_peer (h : Tracks s r) (hp : s.peers p.id = some p) :
    s.inactivePeers p.id = false := by
  by_contra hinactive
  rw [h.disjoint p.id (by simpa using hinactive)] at hp
  cases hp

theorem Tracks.silent_invoke (h : Tracks s r) (callback : CallbackKind)
    (hp : s.peers p.id = some p) :
    ∀ c ∈ (s.invoke callback p).calls, c.callback ≠ .newPeer → c.inactive = false := by
  intro c hc hkind
  rcases List.mem_append.mp hc with hc | hc
  · exact h.silent c hc hkind
  · rw [List.mem_singleton.mp hc]
    exact h.inactive_of_peer hp

theorem Tracks.withBacklog (h : Tracks s r) (hsound : r'.Sound)
    (hlife : ∀ q, Reentrant.life q r'.history = Reentrant.life q r.history)
    (hphase : Phase s.peers r' s.running) : Tracks { s with peersBacklog := some r' } r' where
  installed := rfl
  sound := hsound
  keyed := h.keyed
  held q := by
    rw [hlife q]
    exact h.held q
  disjoint := h.disjoint
  silent := h.silent
  erasedOnce := h.erasedOnce
  phase := hphase

/-! ## Packets -/

theorem stamp_sound (h : r.Sound) (p : UdpPeer ι) : (stamp p r).Sound :=
  ⟨h.running, h.sized, h.within, h.accounted⟩

theorem Tracks.deliver (h : Tracks s r) (hrest : r.AtRest)
    (hrunning : ∀ q it, s.running ≠ .timeout q it) (hp : s.peers p.id = some p) :
    Tracks (s.deliver p) (stamp p r) where
  installed := by rw [UdpServer.deliver, h.installed, Option.map_some]
  sound := stamp_sound h.sound p
  keyed := h.keyed
  held q := by
    refine (h.held q).trans ⟨fun hq => ⟨hq.1, nofun⟩, fun hq => ⟨hq.1, hrunning q⟩⟩
  disjoint := h.disjoint
  silent := h.silent_invoke .data hp
  erasedOnce := h.erasedOnce
  phase := hrest

theorem Tracks.announce (h : Tracks s r) (hrest : r.AtRest)
    (hrunning : ∀ q it, s.running ≠ .timeout q it) (hp : s.peers p.id = some p) :
    ∃ r', Tracks (s.announce p) r' := by
  rw [UdpServer.announce]
  split
  next =>
      refine ⟨r, h.installed, h.sound, h.keyed, ?_, h.disjoint, h.silent_invoke .newPeer hp,
        h.erasedOnce, hrest, hp⟩
      intro q
      exact (h.held q).trans ⟨fun hq => ⟨hq.1, nofun⟩, fun hq => ⟨hq.1, hrunning q⟩⟩
  next => exact ⟨_, h.deliver hrest hrunning hp⟩

theorem Tracks.insert (h : Tracks s r) (hidle : s.running = .idle) (hnew : s.peers p.id = none)
    (hactive : s.inactivePeers p.id = false) (hsound : r'.Sound) (hrest : r'.AtRest)
    (hleads : Reentrant.Leads r r' [{ item := p, fate := .accepted }] r'.callbacks) :
    Tracks { s with peers := Function.update s.peers p.id (some p), peersBacklog := some r',
                    created := s.created + 1 } r' := by
  have habsent : Reentrant.life p r.history = some false := by
    obtain ⟨held, hlife, _⟩ := h.sound.accounted p
    cases held with
    | false => exact hlife
    | true =>
        have hp := ((h.held p).mp hlife).1
        rw [hnew] at hp
        cases hp
  refine ⟨rfl, hsound, h.keyed.insert p, ?_, ?_, h.silent, h.erasedOnce, ?_⟩
  · intro q
    have hfiled := filed_insert_iff UdpPeer.id hnew q
    by_cases hqp : p = q
    · subst hqp
      refine iff_of_true (hleads.life_accepted habsent) ⟨hfiled.mpr (Or.inl rfl), ?_⟩
      rw [hidle]
      nofun
    · rw [hleads.life_of_ne hqp, h.held q]
      exact and_congr_left fun _ => (hfiled.trans (or_iff_right (Ne.symm hqp))).symm
  · intro id hinactive
    have hid : id ≠ p.id := by
      rintro rfl
      rw [hactive] at hinactive
      cases hinactive
    exact (Function.update_of_ne hid _ _).trans (h.disjoint id hinactive)
  · rw [hidle]
    exact hrest.2

theorem Tracks.register (h : Tracks s r) (hidle : s.running = .idle) (hrest : r.AtRest)
    (hnew : s.peers p.id = none) (hactive : s.inactivePeers p.id = false) {addedAt : UInt64}
    (hprompt : ¬ r.backlog.entityTimeout ≤ addedAt - r.backlog.clock)
    (hstep : s.register r p addedAt = some s') : ∃ r', Tracks s' r' := by
  rw [UdpServer.register] at hstep
  obtain ⟨r₁, hadvance, hstep⟩ := Option.bind_eq_some_iff.mp hstep
  obtain ⟨r₂, hadd, hstep⟩ := Option.map_eq_some_iff.mp hstep
  have hsound₁ : r₁.Sound :=
    Reentrant.step_sound (e := .advance _ _) (stamp_sound h.sound p) trivial hadvance
  have hsound₂ : r₂.Sound := Reentrant.step_sound (e := .addItem p) hsound₁ trivial hadd
  rw [Reentrant.step] at hadvance
  split at hadvance
  next hlater =>
      cases hadvance
      have htime : (stamp p r).backlog.itemTime p = r.backlog.clock := Function.update_self _ _ _
      obtain ⟨hleads, hwalk⟩ := Reentrant.step_addItem_alive hsound₁ (by rwa [htime])
        (by rwa [timeDiff, htime]) hadd
      have hcallbacks : r₂.callbacks = r.callbacks := hleads.callbacks
      have hrest₂ : r₂.AtRest := ⟨hwalk.trans hrest.1, hcallbacks.trans hrest.2⟩
      have htracks := h.insert hidle hnew hactive hsound₂ hrest₂ ⟨hleads.history, rfl⟩
      have hsame : ¬ (stamp p r).callbacks < r₂.callbacks := by
        rw [hcallbacks]
        exact Nat.lt_irrefl _
      rw [← hstep]
      simp only [if_neg hsame]
      refine htracks.announce hrest₂ ?_ (Function.update_self _ _ _)
      intro q it
      simp [hidle]
  next => cases hadvance

/-! ## Closing -/

def Running.resumesWith : Running ι → Option (UdpPeer ι)
  | .newPeer p => some p
  | .timeout p _ => some p
  | .timeoutInAdd p _ => some p
  | _ => none

/-- A new peer is in the backlog before its timeout has gone by; a callback closes no peer that
its handler goes on with, and no peer whose entry the loop of the backlog has passed. -/
def Careful (s : UdpServer ι) : Event ι → Prop
  | .datagram id addedAt =>
      s.peers id = none → ∀ r ∈ s.peersBacklog,
        ¬ r.backlog.entityTimeout ≤ addedAt - r.backlog.clock
  | .closePeer p =>
      (∀ x ∈ s.running.resumesWith, x.id ≠ p.id) ∧
      ∀ q ∈ s.peers p.id, ∀ r ∈ s.peersBacklog, Reentrant.Undisturbed r (.removeItem q)
  | _ => True

instance (s : UdpServer ι) (e : Event ι) : Decidable (s.Careful e) := by
  cases e <;> unfold Careful <;> infer_instance

theorem Tracks.closePeer (h : Tracks s r) (hgood : s.Careful (.closePeer p))
    (hstep : s.closePeer p = some s') : ∃ r', Tracks s' r' := by
  obtain ⟨hresumes, hahead⟩ := hgood
  have hnewPeer : ∀ x, s.running = .newPeer x → x.id ≠ p.id := by
    intro x hx
    rw [hx] at hresumes
    exact hresumes x rfl
  have htimeout : ∀ x it, s.running = .timeout x it → x.id ≠ p.id := by
    intro x it hx
    rw [hx] at hresumes
    exact hresumes x rfl
  rw [UdpServer.closePeer] at hstep
  split at hstep
  next =>
      cases hstep
      exact ⟨r, h⟩
  next =>
      split at hstep
      next hnone =>
          cases hstep
          refine ⟨r, h.installed, h.sound, h.keyed, h.held, ?_, h.silent, h.erasedOnce, h.phase⟩
          intro id hinactive
          by_cases hid : id = p.id
          · rw [hid]
            exact hnone
          · exact h.disjoint id ((Function.update_of_ne hid _ _).symm.trans hinactive)
      next q hq =>
          have hkey := h.keyed p.id q hq
          rw [← hkey] at hq
          have hheld : Reentrant.life q r.history = some true := by
            refine (h.held q).mpr ⟨hq, ?_⟩
            intro it hrunning
            exact htimeout q it hrunning hkey
          obtain ⟨t, htrack, rfl⟩ := Option.map_eq_some_iff.mp hstep
          rw [track, h.installed, Option.bind_some] at htrack
          obtain ⟨r', hremove, rfl⟩ := Option.map_eq_some_iff.mp htrack
          obtain ⟨hleads, hwalk⟩ := Reentrant.step_removeItem_held h.sound hheld hremove
          have hother : ∀ x : UdpPeer ι, x.id ≠ q.id →
              Function.update s.peers q.id none x.id = s.peers x.id :=
            fun x hx => Function.update_of_ne hx _ _
          rw [← hkey] at hnewPeer htimeout ⊢
          have hsound' := Reentrant.step_sound h.sound (hahead q (hkey ▸ hq) r h.installed) hremove
          refine ⟨r', rfl, hsound', h.keyed.erase q.id, ?_, ?_, h.silent, h.erasedOnce, ?_⟩
          · intro x
            have hfiled := filed_erase_iff UdpPeer.id hq x
            by_cases hx : q = x
            · subst hx
              have hgone : Reentrant.life q r'.history = some false :=
                hleads.life_departed hheld nofun
              refine iff_of_false ?_ fun hactive => (hfiled.mp hactive.1).1 rfl
              rw [hgone]
              nofun
            · rw [hleads.life_of_ne hx, h.held x]
              exact and_congr_left fun _ => (hfiled.trans (and_iff_right (Ne.symm hx))).symm
          · intro id hinactive
            by_cases hid : id = q.id
            · rw [hid]
              exact Function.update_self _ _ _
            · exact (Function.update_of_ne hid _ _).trans
                (h.disjoint id ((Function.update_of_ne hid _ _).symm.trans hinactive))
          · exact h.phase.keep hwalk hleads.callbacks
              (fun x hx => hother x (hnewPeer x hx)) (fun x it hx => hother x (htimeout x it hx))

/-! ## The other events -/

section

variable (h : Tracks s r)
include h

theorem Tracks.onDataReceived (hbetween : s.BetweenCallbacks) {id : ι} {addedAt : UInt64}
    (hgood : s.Careful (.datagram id addedAt)) (hstep : s.onDataReceived id addedAt = some s') :
    ∃ r', Tracks s' r' := by
  obtain ⟨hidle, hrest⟩ := hbetween
  have hrest := hrest r h.installed
  rw [UdpServer.onDataReceived, h.installed] at hstep
  split at hstep
  next =>
      cases hstep
      exact ⟨r, h⟩
  next =>
      simp only at hstep
      split at hstep
      next =>
          cases hstep
          exact ⟨r, h⟩
      next hactive =>
          split at hstep
          next p hp =>
              cases hstep
              have hkey := h.keyed id p hp
              refine ⟨_, h.deliver hrest ?_ (hkey.symm ▸ hp)⟩
              rw [hidle]
              nofun
          next hnew =>
              exact h.register hidle hrest hnew (by simpa using hactive)
                (hgood hnew r h.installed) hstep

theorem Tracks.visit (hidle : s.running = .idle) (hstep : s.visit r = some s') :
    ∃ r', Tracks s' r' := by
  obtain ⟨r', hvisit, rfl⟩ := Option.map_eq_some_iff.mp hstep
  have hsound : r'.Sound := Reentrant.step_sound (e := .visit) h.sound trivial hvisit
  have hcallbacks : r.callbacks = 0 := by
    have hphase := h.phase
    rwa [hidle] at hphase
  refine ⟨r', ?_⟩
  rcases Reentrant.step_visit_spec hvisit with hquiet | ⟨p, hupcoming, hleads⟩
  · have htracks : Tracks { s with peersBacklog := some r' } r' := by
      refine h.withBacklog hsound hquiet.life_nil ?_
      rw [hidle]
      exact hquiet.callbacks.trans hcallbacks
    have hsame : ¬ r.callbacks < r'.callbacks := by
      rw [hquiet.callbacks]
      exact Nat.lt_irrefl _
    split
    · exact htracks
    · rw [if_neg hsame]
      exact htracks
  · have hmore : r.callbacks < r'.callbacks := by
      rw [hleads.callbacks]
      exact Nat.lt_succ_self _
    have haccounted := hsound.accounted
    rw [hleads.history] at haccounted
    have hheld := haccounted.life_of_depart nofun
    obtain ⟨hp, _⟩ := (h.held p).mp hheld
    rw [hupcoming]
    simp only [if_pos hmore]
    refine ⟨rfl, hsound, h.keyed, ?_, h.disjoint, h.silent_invoke .timeout hp, h.erasedOnce,
      hleads.callbacks.trans (by rw [hcallbacks]), hp, hp⟩
    intro q
    by_cases hq : p = q
    · subst hq
      refine iff_of_false ?_ fun hactive => hactive.2 _ rfl
      rw [hleads.life_departed hheld nofun]
      nofun
    · rw [hleads.life_of_ne hq, h.held q]
      refine and_congr_right fun _ => iff_of_true ?_ ?_
      · rw [hidle]
        nofun
      · rintro it ⟨⟩
        exact hq rfl

theorem Tracks.eraseFound {it : Option (UdpPeer ι)} (hrunning : s.running = .timeout p it)
    (hstep : r.step .leave = some r') :
    Tracks { { s with peersBacklog := some r' }.eraseFound p it with running := .idle } r' := by
  have hphase := h.phase
  rw [hrunning] at hphase
  obtain ⟨hcallbacks, hp, rfl⟩ := hphase
  have hsound : r'.Sound := Reentrant.step_sound (e := .leave) h.sound trivial hstep
  rw [Reentrant.step, if_pos (by omega)] at hstep
  cases hstep
  rw [UdpServer.eraseFound, if_neg (by simp), if_pos hp]
  refine ⟨rfl, hsound, h.keyed.erase p.id, ?_, ?_, h.silent, h.erasedOnce, by
    change r.callbacks - 1 = 0
    omega⟩
  · intro q
    have hfiled := filed_erase_iff UdpPeer.id hp q
    rw [h.held q]
    constructor
    · rintro ⟨hq, hnot⟩
      refine ⟨hfiled.mpr ⟨?_, hq⟩, by simp⟩
      rintro rfl
      exact hnot _ hrunning
    · rintro ⟨hq, _⟩
      obtain ⟨hne, hq⟩ := hfiled.mp hq
      refine ⟨hq, ?_⟩
      rw [hrunning]
      rintro it ⟨⟩
      exact hne rfl
  · intro id hinactive
    by_cases hid : id = p.id
    · rw [hid]
      exact Function.update_self _ _ _
    · exact (Function.update_of_ne hid _ _).trans (h.disjoint id hinactive)

theorem Tracks.leave (hstep : step s .leave = some s') : ∃ r', Tracks s' r' := by
  have hphase := h.phase
  rw [step] at hstep
  split at hstep
  next => cases hstep
  next p hrunning =>
      cases hstep
      rw [hrunning] at hphase
      refine ⟨_, h.deliver hphase.1 ?_ hphase.2⟩
      rw [hrunning]
      nofun
  next p hrunning =>
      cases hstep
      rw [hrunning] at hphase
      refine ⟨r, h.installed, h.sound, h.keyed, ?_, h.disjoint, h.silent, h.erasedOnce, hphase.2⟩
      intro q
      rw [h.held q, Active, hrunning]
      exact and_congr_right fun _ => iff_of_true nofun nofun
  next p it hrunning =>
      rw [track, h.installed, Option.bind_some, Option.map_map] at hstep
      obtain ⟨r', hleave, rfl⟩ := Option.map_eq_some_iff.mp hstep
      exact ⟨r', h.eraseFound hrunning hleave⟩
  next p it hrunning =>
      rw [hrunning] at hphase
      exact hphase.elim

theorem step_tracks {e : Event ι} (hgood : s.Careful e) (hstep : step s e = some s') :
    ∃ r', Tracks s' r' := by
  cases e with
  | datagram id addedAt =>
      rw [step] at hstep
      split at hstep
      next hbetween => exact h.onDataReceived hbetween.1 hgood hstep
      next => cases hstep
  | closePeer p =>
      rw [step] at hstep
      split at hstep
      next => exact h.closePeer hgood hstep
      next => cases hstep
  | onTimer index =>
      rw [step, track, h.installed, Option.bind_some] at hstep
      split at hstep
      next hbetween =>
          obtain ⟨r', htick, rfl⟩ := Option.map_eq_some_iff.mp hstep
          have hsound : r'.Sound := Reentrant.step_sound (e := .onTimer index) h.sound trivial htick
          rw [Reentrant.step] at htick
          split at htick
          next hrest =>
              cases htick
              refine ⟨_, h.withBacklog hsound (fun _ => rfl) ?_⟩
              rw [hbetween.1]
              exact hrest.2.1
          next => cases htick
      next => cases hstep
  | visit =>
      rw [step, h.installed, Option.bind_some] at hstep
      split at hstep
      next hidle => exact h.visit hidle hstep
      next => cases hstep
  | inactivityOver id =>
      rw [step] at hstep
      split at hstep
      next =>
          cases hstep
          refine ⟨r, h.installed, h.sound, h.keyed, h.held, ?_, h.silent, h.erasedOnce, h.phase⟩
          intro other hinactive
          by_cases hid : other = id
          · rw [hid] at hinactive
            cases (Function.update_self _ _ _).symm.trans hinactive
          · exact h.disjoint other ((Function.update_of_ne hid _ _).symm.trans hinactive)
      next => cases hstep
  | leave => exact h.leave hstep
  | advance clock =>
      rw [step, h.installed, Option.bind_some, track, h.installed, Option.bind_some] at hstep
      obtain ⟨r', hadvance, rfl⟩ := Option.map_eq_some_iff.mp hstep
      have hsound : r'.Sound := Reentrant.step_sound (e := .advance _ _) h.sound trivial hadvance
      rw [Reentrant.step] at hadvance
      split at hadvance
      next =>
          cases hadvance
          exact ⟨_, h.withBacklog hsound (fun _ => rfl) (h.phase.keep rfl rfl (fun _ _ => rfl)
            fun _ _ _ => rfl)⟩
      next => cases hadvance

end

/-! ## Every run -/

/-- Between the callbacks of the loop no peer of the table is among the closed ones, and the
backlog holds the peers of the table, each once. No entry was erased twice, and no data or
timeout callback was called for a closed peer. -/
structure Consistent (s : UdpServer ι) : Prop where
  disjoint : s.BetweenCallbacks → ∀ id, s.inactivePeers id = true → s.peers id = none
  backlog_exact : s.BetweenCallbacks → ∃ r, s.peersBacklog = some r ∧
    ∀ p, r.backlog.items.flatten.count p ≤ 1 ∧
      (p ∈ r.backlog.items.flatten ↔ ∃ id, s.peers id = some p)
  erasedOnce : s.erasedTwice = false
  silent : ∀ c ∈ s.calls, c.callback ≠ .newPeer → c.inactive = false

theorem Tracks.mem_items_iff (h : Tracks s r) (hbetween : s.BetweenCallbacks) (p : UdpPeer ι) :
    r.backlog.items.flatten.count p ≤ 1 ∧
      (p ∈ r.backlog.items.flatten ↔ ∃ id, s.peers id = some p) := by
  obtain ⟨hidle, hrest⟩ := hbetween
  have hconserved := h.sound.conserved
  have hactive : s.Active p ↔ ∃ id, s.peers id = some p := by
    constructor
    · exact fun hp => ⟨p.id, hp.1⟩
    · rintro ⟨id, hp⟩
      refine ⟨(h.keyed id p hp).symm ▸ hp, ?_⟩
      rw [hidle]
      nofun
  rw [← hactive, ← h.held p]
  cases hlife : Reentrant.life p r.history with
  | none => exact absurd hlife (hconserved.ordered p)
  | some held =>
      cases held with
      | true =>
          have hone := (hconserved.held (hrest r h.installed) p hlife).2
          exact ⟨Nat.le_of_eq hone, iff_of_true (List.count_pos_iff.mp (by omega)) rfl⟩
      | false =>
          have hnone := hconserved.gone (hrest r h.installed) p hlife
          rw [List.count_eq_zero_of_not_mem hnone]
          exact ⟨Nat.zero_le 1, iff_of_false hnone nofun⟩

theorem Tracks.consistent (h : Tracks s r) : Consistent s where
  disjoint _ := h.disjoint
  backlog_exact hbetween := ⟨r, h.installed, h.mem_items_iff hbetween⟩
  erasedOnce := h.erasedOnce
  silent := h.silent

def Tracking (s : UdpServer ι) : Prop :=
  ∃ r, Tracks s r

theorem started_tracking {args : TrackingArgs}
    (hok : (startReceiveTracked args ({} : UdpServer ι)).1.isError = false) :
    Tracking (started ι args) := by
  have htimeout : args.timeoutMs ≠ 0 := by
    intro hzero
    rw [startReceiveTracked, if_pos hzero] at hok
    cases hok
  rw [started, startReceiveTracked, if_neg htimeout, if_neg nofun]
  obtain ⟨_, _, _, hframe⟩ := startReceive_frame args.toReceiveArgs
    { hasNewPeerCallback := args.hasNewPeerCallback
      peersBacklog := some (Reentrant.start args.timeoutMs args.now fun _ => 0) : UdpServer ι }
  rw [hframe]
  refine ⟨_, rfl, Reentrant.start_sound args.timeoutMs args.now fun _ => 0, nofun, ?_, nofun,
    nofun, rfl, rfl⟩
  intro p
  exact iff_of_false nofun fun hactive => by cases hactive.1

theorem peer_tracking_consistent (args : TrackingArgs)
    (hok : (startReceiveTracked args ({} : UdpServer ι)).1.isError = false) (es : List (Event ι))
    (hgood : Along step Careful (started ι args) es) :
    Throughout step Consistent (started ι args) es :=
  throughout_of_along (fun _ ⟨_, h⟩ => Tracks.consistent h)
    (fun _ _ _ (h : Tracking _) => h.elim fun _ h => step_tracks h) (started_tracking hok) hgood

/-- The peer's only packet and a tick after its timeout, whose callback closes the peer. -/
def closedInTimeout : List (Event Nat) :=
  [.datagram 7 0, .leave, .leave, .advance 2000000, .onTimer 0, .visit, .closePeer ⟨7, 0⟩, .leave]

def closedInNewPeer : List (Event Nat) :=
  [.datagram 7 0, .closePeer ⟨7, 0⟩, .leave]

/-- In the first run the entry is erased twice, in the second one the data callback is called for
the closed peer. -/
theorem peer_closed_in_own_callback :
    ¬ Throughout step Consistent (started Nat { timeoutMs := 1 }) closedInTimeout ∧
      ¬ Throughout step Consistent (started Nat { timeoutMs := 1 }) closedInNewPeer := by
  constructor
  · intro hall
    have hend : ∃ s ∈ exec step (started Nat { timeoutMs := 1 }) closedInTimeout,
        s.erasedTwice = true := by
      decide +kernel
    obtain ⟨s, hrun, hs⟩ := hend
    cases hs.symm.trans (hall.last hrun).erasedOnce
  · intro hall
    have hend : ∃ s ∈ exec step (started Nat { timeoutMs := 1 }) closedInNewPeer,
        ⟨.data, 7, true⟩ ∈ s.calls := by
      decide +kernel
    obtain ⟨s, hrun, hs⟩ := hend
    cases (hall.last hrun).silent _ hs nofun

/-- One peer is closed in the data callback, another one in the new-peer callback of a third,
and the third times out and comes back. -/
def closesOthers : List (Event Nat) :=
  [.datagram 1 0, .leave, .closePeer ⟨1, 0⟩, .leave, .datagram 2 0, .leave, .leave, .datagram 1 0,
    .datagram 3 0, .closePeer ⟨2, 1⟩, .leave, .leave, .inactivityOver 1, .advance 2000000,
    .onTimer 0, .visit, .leave, .visit, .datagram 3 2000000, .leave, .leave]

theorem peer_tracking_consistent_closesOthers :
    (exec step (started Nat { timeoutMs := 1 }) closesOthers).isSome ∧
      Throughout step Consistent (started Nat { timeoutMs := 1 }) closesOthers :=
  ⟨by decide +kernel,
    peer_tracking_consistent { timeoutMs := 1 } (by decide) closesOthers (by decide +kernel)⟩

end TarmIo.Net.UdpServer
