import TarmIo.Fs.DirOpens
import TarmIo.Fs.FileOpens

/-!
# Every open is answered

What holds of the callbacks passed to `open`, for files and for directories that are opened and
closed in any way.
-/

namespace TarmIo.Fs

open Foundation

/-- In a quiet state of a file each callback passed to `open` was called as often as it was passed,
and in one of a directory exactly when no `open` with a callback ran after a failed one. With libuv
completing requests again and again, finitely many cycles lead a file to a quiet state exactly when
it does not get stuck, and a directory in any case. -/
theorem opens_answered_iff (fileRun : List File.Event) (dirRun : List Dir.Event) :
    (∀ s, exec File.openStep {} fileRun = some s →
      (s.Quiet → s.AllAnswered) ∧
      (s.running = none → ∀ answers : Nat → Option Failure × Option Error,
        (∀ n, ∃ m, n ≤ m ∧ (answers m).2 ≠ none) →
        ((∃ n, (cycles File.loop.cycle answers s n).Quiet) ↔
          ∀ n, ¬ (cycles File.loop.cycle answers s n).Stuck))) ∧
    (∀ s, exec Dir.openStep {} dirRun = some s →
      (s.Quiet → (s.AllAnswered ↔ Along Dir.openStep Dir.LosesNone {} dirRun)) ∧
      (s.running = none → ∀ answers : Nat → Unit × Option Error,
        (∀ n, ∃ m, n ≤ m ∧ (answers m).2 ≠ none) →
        ∃ n, (cycles Dir.loop.cycle answers s n).Quiet)) := by
  constructor
  · intro s hrun
    refine ⟨File.allAnswered_of_quiet (File.accounted_of_reaches ⟨fileRun, hrun⟩), ?_⟩
    exact fun hnone answers fair => File.eventually_quiet_iff ⟨⟨fileRun, hrun⟩, hnone⟩ fair
  · intro s hrun
    refine ⟨fun hquiet => ?_, fun hnone answers fair => ?_⟩
    · rw [Dir.allAnswered_iff_balanced hquiet,
        exec_iff_along (fun _ _ _ hs hstep => hs.step hstep)
          (fun _ _ _ hs hstep => Dir.balanced_step_iff hs hstep) Dir.Accounted.initial hrun]
      exact and_iff_right fun _ => rfl
    · exact Dir.loop_ranked.eventually fair ⟨⟨dirRun, hrun⟩, hnone⟩

def openAgain : List File.Event :=
  [.call (.openFile (some 0)) none, .loop (.opened 0 (.ofCode .noSuchFileOrDirectory)) none,
    .call (.openFile (some 1)) none, .leave none, .loop .scheduled none,
    .loop (.opened 1 {}) none, .call (.close (some 2)) none, .leave none,
    .loop (.closed (.user (some 2)) {}) none, .leave none]

def openTwice : List Dir.Event :=
  [.call (.openDir (some 0)), .loop (.opened {}), .call (.openDir (some 1)), .leave,
    .loop (.closed (.reopen (some 1)) {}), .loop .scheduled, .loop (.opened {}), .leave]

theorem opens_answered_iff_openedAgain :
    (∃ s ∈ exec File.openStep {} openAgain, s.passed = [0, 1] ∧ s.Quiet ∧ s.AllAnswered) ∧
    (∃ s ∈ exec Dir.openStep {} openTwice, s.passed = [0, 1] ∧ s.Quiet ∧ s.AllAnswered) ∧
    ∃ s ∈ exec Dir.openStep {} (openTwice.take 4), ¬ s.Quiet ∧
      ∃ n, (cycles Dir.loop.cycle (fun _ => ((), some {})) s n).Quiet := by
  have hfile : ∃ s ∈ exec File.openStep {} openAgain, s.passed = [0, 1] ∧ s.Quiet := by
    decide +kernel
  have hdir : ∃ s ∈ exec Dir.openStep {} openTwice, s.passed = [0, 1] ∧ s.Quiet := by
    decide +kernel
  have hbusy : ∃ s ∈ exec Dir.openStep {} (openTwice.take 4), s.running = none ∧ ¬ s.Quiet := by
    decide +kernel
  obtain ⟨s, hs, hpassed, hquiet⟩ := hfile
  obtain ⟨t, ht, hpassed', hquiet'⟩ := hdir
  obtain ⟨u, hu, hnone, hnot⟩ := hbusy
  refine ⟨⟨s, hs, hpassed, hquiet, ((opens_answered_iff openAgain openTwice).1 s hs).1 hquiet⟩,
    ⟨t, ht, hpassed', hquiet', ?_⟩, u, hu, hnot, ?_⟩
  · exact (((opens_answered_iff openAgain openTwice).2 t ht).1 hquiet').mpr (by decide +kernel)
  · exact ((opens_answered_iff [] (openTwice.take 4)).2 u hu).2 hnone _
      fun n => ⟨n, Nat.le_refl n, by simp⟩

def openAfterNull : List File.Event :=
  [.call (.openFile none) none, .loop (.opened 0 {}) none, .call (.openFile (some 0)) none]

def openAfterFailure : List Dir.Event :=
  [.call (.openDir (some 0)), .loop (.opened (.ofCode .noSuchFileOrDirectory)), .leave,
    .call (.openDir (some 1))]

/-- The callback of the second open is never called, and the loop of the file never comes to
rest. -/
theorem open_unanswered :
    (∃ s ∈ exec File.openStep {} openAfterNull, s.running = none ∧ s.passed = [0] ∧
      s.answered = [] ∧ ∀ answers n, ¬ (cycles File.loop.cycle answers s n).Quiet) ∧
    ∃ s ∈ exec Dir.openStep {} openAfterFailure, s.Quiet ∧ s.passed = [0, 1] ∧
      s.answered = [0] := by
  constructor
  · have h : ∃ s ∈ exec File.openStep {} openAfterNull, s.running = none ∧ s.passed = [0] ∧
        s.answered = [] ∧ (s.state = .opening ∧ s.openRequests = []) ∧
        s.scheduled = [.openFile (some 0)] := by
      decide +kernel
    obtain ⟨s, hs, hnone, hpassed, hanswered, hhalted, hjobs⟩ := h
    have hstuck : s.Stuck := ⟨.inl hhalted, some 0, by simp [hjobs]⟩
    refine ⟨s, hs, hnone, hpassed, hanswered, fun answers n => ?_⟩
    exact (File.Stuck.cycles ⟨⟨_, hs⟩, hnone⟩ answers (Nat.zero_le n) hstuck).not_quiet
  · decide +kernel

end TarmIo.Fs
