import Inlay.Proofs.Logging.Lifecycle
import Inlay.Proofs.Workspace.Files
import Mathlib

/-!
# Logging set up again

Setting up that is not skipped starts a listener exactly if its settings offer a place to write to
(`starts_iff`). Without one it still takes down what there was, and logging stays marked as
configured. From then on only force or shutting down helps, so logging listens again after a call
without force exactly if there has been one of these (`listening_again`).
-/

namespace Inlay

namespace Logging

/-! ### Marked and listening -/

theorem isListening_listen (l : Logging) (sinks : List LogSink) :
    (l.listen sinks).isListening = true := by
  simp [isListening, listen, sinksOf?]

theorem isListening_clear (l : Logging) (level : Int) : (l.clear level).isListening = false := by
  rw [isListening, stored_clear]
  rfl

theorem SameLife.isListening_eq {l m : Logging} (h : l.SameLife m) :
    m.isListening = l.isListening := by
  rw [isListening, isListening, h.stored, funext fun n => show m.sinksOf? n = l.sinksOf? n by
    rw [sinksOf?, sinksOf?, h.running]]

theorem configured_clear (l : Logging) (level : Int) :
    (l.clear level).configured = l.configured := by
  unfold clear stop detach
  cases l.stored <;> rfl

end Logging

namespace Action

theorem runOn_logTemplate (format : Text) (s : Workspace) :
    (∃ template, LogTemplate.ofFormat? format = some template ∧
        (logTemplate format).runOn s = (.ok template, s)) ∨
      LogTemplate.ofFormat? format = none ∧ ∃ f, (logTemplate format).runOn s = (.error f, s) := by
  unfold logTemplate
  cases LogTemplate.ofFormat? format with
  | none => exact .inr ⟨rfl, _, rfl⟩
  | some template => exact .inl ⟨template, rfl, rfl⟩

theorem runOn_consoleSinks (config : LogConfig) (level : Int) (s : Workspace) :
    (¬ (config.console = true → LogTemplate.ofFormat? config.consoleFormat ≠ none) ∧
        ∃ f, (consoleSinks config level).runOn s = (.error f, s)) ∨
      (config.console = true → LogTemplate.ofFormat? config.consoleFormat ≠ none) ∧
        ∃ sinks, (consoleSinks config level).runOn s = (.ok sinks, s) ∧
          (sinks ≠ [] ↔ config.console = true) := by
  unfold consoleSinks
  cases hconsole : config.console with
  | false => exact .inr ⟨by simp, [], rfl, by simp⟩
  | true =>
    rw [if_pos rfl]
    rcases runOn_logTemplate config.consoleFormat s with
      ⟨template, hformat, hrun⟩ | ⟨hformat, f, hrun⟩
    · exact .inr ⟨by simp [hformat], _, runOn_bind_of_ok hrun, by simp⟩
    · exact .inl ⟨by simp [hformat], f, runOn_bind_of_error hrun⟩

end Action

section
variable [Host]

/-! ### What settings offer -/

namespace Volume

/-- What opening a log file comes to in this volume. -/
def logOpening (v : Volume) (path : Path) : Except Failure Path :=
  ((Action.openLog path).runOn { Workspace.initial [] [] with volume := v }).1

/-- The folders of a log file can be made, and the file can be opened. -/
def OpensLog (v : Volume) (path : Path) : Prop :=
  ∃ full, v.logOpening path = .ok full

/-- Opening a log file succeeds, or ends with an error of the file system, which is only complained
about. Of a text that is no path it does neither. -/
def AcceptsLog (v : Volume) (path : Path) : Prop :=
  ∀ f, v.logOpening path = .error f → ∃ e, f = .os e

end Volume

namespace LogConfig

/-- The log file that is asked for; the empty path asks for none. -/
def wanted? (config : LogConfig) : Option Path :=
  config.file.filter (!·.isEmpty)

/-- The formats that are needed are valid, what is asked for as a log file is a path, and there is a
place to write to. -/
structure Offers (config : LogConfig) (v : Volume) : Prop where
  consoleFormat : config.console = true → LogTemplate.ofFormat? config.consoleFormat ≠ none
  fileFormat : config.wanted? ≠ none → LogTemplate.ofFormat? config.fileFormat ≠ none
  accepted : ∀ path, config.wanted? = some path → v.AcceptsLog path
  place : config.console = true ∨ ∃ path, config.wanted? = some path ∧ v.OpensLog path

end LogConfig

namespace Action

/-- Opening looks at the volume alone. -/
theorem sees_openLog (path : Path) : Sees (fun s t => t.volume = s.volume) (openLog path) := by
  have hput (path : Path) (f : Volume → Except Errno Volume) :
      Sees (fun s t => t.volume = s.volume) (onVolume path f) :=
    sees_onVolume (fun _ _ h => h) (fun _ _ _ _ => rfl) path f
  have habsolute : Sees (fun s t => t.volume = s.volume) (absolute path) := by
    unfold absolute
    refine sees_get (fun s t h => by rw [h]) fun s => ?_
    dsimp only
    split
    · exact sees_pure _
    · exact sees_throw _
  unfold openLog ensureFolder
  have hmake : ∀ path, Sees _ (makeFolder false path) := fun path => hput path (·.makeFolder path)
  exact sees_bind habsolute fun full => sees_bind (sees_makeFolders (fun _ _ h => h) hmake _ _)
    fun _ => sees_bind (hput _ _) fun _ => sees_pure _

theorem runOn_openLog_fst (path : Path) (s : Workspace) :
    ((openLog path).runOn s).1 = s.volume.logOpening path :=
  (sees_openLog path { Workspace.initial [] [] with volume := s.volume } s rfl).1

theorem runOn_openLogFile (config : LogConfig) (path : Path) (s : Workspace) :
    (¬ (LogTemplate.ofFormat? config.fileFormat ≠ none ∧ s.volume.AcceptsLog path) ∧
        ∃ f t, (openLogFile config path).runOn s = (.error f, t)) ∨
      (LogTemplate.ofFormat? config.fileFormat ≠ none ∧ s.volume.AcceptsLog path) ∧
        ∃ opened t, (openLogFile config path).runOn s = (.ok opened, t) ∧
          (opened ≠ none ↔ s.volume.OpensLog path) := by
  unfold openLogFile Volume.AcceptsLog Volume.OpensLog
  rcases runOn_logTemplate config.fileFormat s with ⟨template, hformat, hrun⟩ | ⟨hformat, f, hrun⟩
  · rw [runOn_bind_of_ok hrun, runOn_bind_of_ok (runOn_attempt _ s), runOn_openLog_fst]
    cases s.volume.logOpening path with
    | ok full => exact .inr ⟨⟨by simp [hformat], by simp⟩, _, _, rfl, by simp⟩
    | error f =>
      by_cases hos : ∃ e, f = .os e
      · obtain ⟨e, rfl⟩ := hos
        exact .inr ⟨⟨by simp [hformat], by simp⟩, none, _, rfl, by simp⟩
      · refine .inl ⟨fun h => hos (h.2 f rfl), f, ((openLog path).runOn s).2, ?_⟩
        split
        · next he => simp at he
        · next e he => exact absurd ⟨e, Except.error.inj he⟩ hos
        · next he => rw [Except.error.inj he, runOn_throw]
  · exact .inl ⟨fun h => h.1 hformat, f, s, runOn_bind_of_error hrun⟩

theorem runOn_fileSinks (config : LogConfig) (level : Int) (s : Workspace) :
    (¬ ((config.wanted? ≠ none → LogTemplate.ofFormat? config.fileFormat ≠ none) ∧
          ∀ path, config.wanted? = some path → s.volume.AcceptsLog path) ∧
        ∃ f t, (fileSinks config level).runOn s = (.error f, t)) ∨
      ((config.wanted? ≠ none → LogTemplate.ofFormat? config.fileFormat ≠ none) ∧
          ∀ path, config.wanted? = some path → s.volume.AcceptsLog path) ∧
        ∃ sinks t, (fileSinks config level).runOn s = (.ok sinks, t) ∧
          (sinks ≠ [] ↔ ∃ path, config.wanted? = some path ∧ s.volume.OpensLog path) := by
  unfold fileSinks
  rw [← LogConfig.wanted?]
  cases config.wanted? with
  | none => exact .inr ⟨by simp, [], s, rfl, by simp⟩
  | some path =>
    rcases runOn_openLogFile config path s with
      ⟨hbad, f, t, hrun⟩ | ⟨⟨hformat, haccepts⟩, opened, t, hrun, ho⟩
    · exact .inl ⟨fun h => hbad ⟨h.1 (by simp), h.2 path rfl⟩, f, t, runOn_bind_of_error hrun⟩
    · refine .inr ⟨⟨fun _ => hformat, fun p hp => Option.some.inj hp ▸ haccepts⟩, _, t,
        runOn_bind_of_ok hrun, ?_⟩
      cases opened with
      | none => simpa using ho
      | some file => simpa using ho

theorem runOn_gatherSinks (config : LogConfig) (s : Workspace) :
    (¬ config.Offers s.volume ∧ ∃ f t, (gatherSinks config).runOn s = (.error f, t)) ∨
      ∃ sinks t, (gatherSinks config).runOn s = (.ok sinks, t) ∧
        (sinks ≠ [] ↔ config.Offers s.volume) := by
  unfold gatherSinks
  rcases runOn_consoleSinks config (Level.parse config.level) s with
    ⟨hbad, f, hrun⟩ | ⟨hconsole, console, hrun, hplace⟩
  · exact .inl ⟨fun h => hbad h.consoleFormat, f, s, runOn_bind_of_error hrun⟩
  rw [runOn_bind_of_ok hrun]
  rcases runOn_fileSinks config (Level.parse config.level) s with
    ⟨hbad, f, t, hrun'⟩ | ⟨⟨hfile, haccepts⟩, file, t, hrun', hplace'⟩
  · exact .inl ⟨fun h => hbad ⟨h.fileFormat, h.accepted⟩, f, t, runOn_bind_of_error hrun'⟩
  refine .inr ⟨console ++ file, t, runOn_bind_of_ok hrun', ?_⟩
  rw [ne_eq, List.append_eq_nil_iff, not_and_or, ← ne_eq, ← ne_eq, hplace, hplace']
  exact ⟨fun h => ⟨hconsole, hfile, haccepts, h⟩, fun h => h.place⟩

/-- Setting up that is not skipped starts a listener if its settings offer a place to write to, and
otherwise leaves logging without one, marked as before. -/
theorem runOn_configureLogging_of_new (config : LogConfig) {force : Bool} {s : Workspace}
    (hnew : (s.logging.configured && !force) = false) :
    (config.Offers s.drain.volume ∧ ∃ sinks t,
        (configureLogging config force).runOn s = (.ok (), t) ∧
        t.logging = (clearedFor config s).listen sinks) ∨
      ¬ config.Offers s.drain.volume ∧
        ((configureLogging config force).runOn s).2.logging = clearedFor config s := by
  rw [runOn_configureLogging_eq hnew]
  have hlogging := keepsLogging_gatherSinks config
    { s.drain with logging := clearedFor config s }
  rcases runOn_gatherSinks config { s.drain with logging := clearedFor config s } with
    ⟨hnone, f, t, hrun⟩ | ⟨sinks, t, hrun, hoffers⟩
  · rw [hrun] at hlogging
    exact .inr ⟨hnone, by rw [runOn_bind_of_error hrun, hlogging]⟩
  rw [hrun] at hlogging
  rw [runOn_bind_of_ok hrun, ← hoffers]
  cases sinks with
  | nil => exact .inr ⟨fun h => h rfl, hlogging⟩
  | cons sink sinks =>
    exact .inl ⟨List.cons_ne_nil _ _, sink :: sinks, _, rfl,
      congrArg (Logging.listen · (sink :: sinks)) hlogging⟩

end Action

namespace Action

variable {config : LogConfig} {force : Bool} {s : Workspace}

theorem configured_clearedFor (config : LogConfig) (s : Workspace) :
    (clearedFor config s).configured = s.logging.configured :=
  (Logging.configured_clear _ _).trans s.sameLife_drain.configured

/-- A call that is not skipped starts a listener exactly if its settings offer a place. -/
theorem starts_iff (hnew : (s.logging.configured && !force) = false) :
    ((configureLogging config force).runOn s).2.logging.isListening = true ↔
      config.Offers s.drain.volume := by
  rcases runOn_configureLogging_of_new config hnew with
    ⟨hoffers, sinks, t, hrun, ht⟩ | ⟨hoffers, ht⟩
  · rw [hrun, ht, Logging.isListening_listen]
    simp [hoffers]
  · rw [ht, clearedFor, Logging.isListening_clear]
    simp [hoffers]

end Action

/-! ### Histories -/

/-- Logging is not marked as configured without a listener. -/
def Logging.Truthful (l : Logging) : Prop :=
  l.configured = true → l.isListening = true

/-- A life of logging in which a forced call that took down the listener without starting another
one was followed by a call that started one, or by shutting down. -/
inductive Renewable (s : Workspace) : Workspace → Prop
  | start : Renewable s s
  | elsewhere {t : Workspace} (u : Workspace) :
    Renewable s t → t.logging.SameLife u.logging → Renewable s u
  | configure {t : Workspace} (config : LogConfig) (force : Bool) : Renewable s t →
    (t.logging.configured = true → force = true → config.Offers t.drain.volume) →
    Renewable s ((Action.configureLogging config force).runOn t).2
  | renew {t : Workspace} (config : LogConfig) (force : Bool) : Lifecycle s t →
    (t.logging.configured && !force) = false → config.Offers t.drain.volume →
    Renewable s ((Action.configureLogging config force).runOn t).2
  | shutDown {t : Workspace} : Lifecycle s t → Renewable s (Action.shutDownLogging.runOn t).2

variable {s t : Workspace}

theorem Renewable.truthful (h : Renewable s t) (hs : s.logging.configured = false) :
    t.logging.Truthful := by
  induction h with
  | start => exact fun hc => absurd hc (by simp [hs])
  | elsewhere u _ hsame ih =>
    intro hc
    rw [hsame.isListening_eq]
    exact ih (hsame.configured ▸ hc)
  | @configure t config force _ hcall ih =>
    cases hskip : t.logging.configured && !force with
    | true => rwa [Action.runOn_configureLogging_of_skipped hskip]
    | false =>
      rcases Action.runOn_configureLogging_of_new config hskip with
        ⟨hoffers, _⟩ | ⟨hoffers, ht⟩
      · exact fun _ => (Action.starts_iff hskip).2 hoffers
      · -- Only a forced call gets here with logging configured, and such a call has an offer.
        intro hc
        rw [ht, Action.configured_clearedFor] at hc
        rw [hc, Bool.true_and, Bool.not_eq_false'] at hskip
        exact absurd (hcall hc hskip) hoffers
  | renew config force _ hnew hoffers => exact fun _ => (Action.starts_iff hnew).2 hoffers
  | shutDown _ => exact fun hc => absurd hc Bool.false_ne_true

theorem Lifecycle.renewable (h : Lifecycle s t) (ht : t.logging.Truthful) : Renewable s t := by
  induction h with
  | start => exact .start
  | elsewhere u _ hsame ih =>
    refine .elsewhere u (ih fun hc => ?_) hsame
    rw [← hsame.isListening_eq]
    exact ht (hsame.configured.trans hc)
  | @configure t config force h ih =>
    cases hskip : t.logging.configured && !force with
    | true =>
      rw [Action.runOn_configureLogging_of_skipped hskip] at ht
      refine .configure config force (ih ht) fun _ hforce => ?_
      simp [hforce] at hskip
    | false =>
      by_cases hoffers : config.Offers t.drain.volume
      · exact .renew config force h hskip hoffers
      · have hlistening := mt (Action.starts_iff hskip).1 hoffers
        have hc : t.logging.configured = false := by
          rcases Action.runOn_configureLogging_of_new config hskip with
            ⟨hoffers', _⟩ | ⟨_, hcleared⟩
          · exact absurd hoffers' hoffers
          · rw [← Action.configured_clearedFor config, ← hcleared]
            exact Bool.eq_false_iff.2 fun hc => hlistening (ht hc)
        exact .configure config force (ih fun hc' => absurd hc' (by simp [hc]))
          fun hc' => absurd hc' (by simp [hc])
  | shutDown h _ => exact .shutDown h

theorem Lifecycle.stored_of_unmarked (h : Lifecycle s t) (hstored : s.logging.stored = none)
    (hc : t.logging.configured = false) : t.logging.stored = none := by
  induction h with
  | start => exact hstored
  | elsewhere u _ hsame ih =>
    rw [hsame.stored]
    exact ih (hsame.configured ▸ hc)
  | @configure t config force _ ih =>
    cases hskip : t.logging.configured && !force with
    | true =>
      rw [Action.runOn_configureLogging_of_skipped hskip] at hc ⊢
      exact ih hc
    | false =>
      rcases Action.runOn_configureLogging_of_new config hskip with
        ⟨_, sinks, u, hrun, hu⟩ | ⟨_, hcleared⟩
      · rw [hrun, hu] at hc
        exact absurd hc (by simp [Logging.listen])
      · rw [hcleared]
        exact Logging.stored_clear _ _
  | shutDown _ _ => exact Logging.stored_shutDown _

/-- Where no listener runs, nothing waits for a file. -/
theorem Workspace.volume_drain_of_silent (h : s.logging.running = []) :
    s.drain.volume = s.volume := by
  have hout : s.logging.deliveries.1 = [] := by
    simp [Logging.deliveries, Logging.sinksOf?, h]
  show (s.logging.deliveries.1.foldl deliver _).volume = s.volume
  rw [hout]
  rfl

/-- A call that is not skipped leaves a running listener exactly if its settings offer a place to
write to. After any history, a call without force whose settings do so succeeds. It leaves a
handler of our own and a running listener exactly if no forced call has silenced logging since the
last call that started a listener or the last shutting down. -/
theorem listening_again (hforeign : s.logging.ours = 0) (hstored : s.logging.stored = none)
    (hrunning : s.logging.running = []) (hfresh : s.logging.configured = false)
    (h : Lifecycle s t) (config : LogConfig) :
    (∀ force, (t.logging.configured && !force) = false →
      (((Action.configureLogging config force).runOn t).2.logging.isListening = true ↔
        config.Offers t.drain.volume)) ∧
    (config.Offers t.volume →
      let run := (Action.configureLogging config false).runOn t
      run.1 = .ok () ∧
        ((run.2.logging.ours = 1 ∧ run.2.logging.isListening = true) ↔ Renewable s t)) := by
  refine ⟨fun force => Action.starts_iff, fun hoffers => ?_⟩
  intro run
  have horder := Logging.orderly_of_fresh hforeign hstored hrunning
  have hours : run.2.logging.ours = 1 ∧ run.2.logging.isListening = true ↔
      run.2.logging.isListening = true := by
    rw [((h.configure config false).orderly horder).isListening_iff, and_self]
  rw [hours]
  cases hc : t.logging.configured with
  | true =>
    have hskip : (t.logging.configured && !false) = true := by simp [hc]
    have hrun : run = (.ok (), t) := Action.runOn_configureLogging_of_skipped hskip
    rw [hrun]
    exact ⟨rfl, fun hlistening => h.renewable fun _ => hlistening,
      fun hrenewable => hrenewable.truthful hfresh hc⟩
  | false =>
    have hnew : (t.logging.configured && !false) = false := by simp [hc]
    have hsilent : t.logging.running = [] := by
      have hown := (h.orderly horder).running
      rw [h.stored_of_unmarked hstored hc] at hown
      exact List.map_eq_nil_iff.1 hown
    rw [← Workspace.volume_drain_of_silent hsilent] at hoffers
    have hlistening : run.2.logging.isListening = true := (Action.starts_iff hnew).2 hoffers
    refine ⟨?_, fun _ => h.renewable fun hc' => absurd hc' (by simp [hc]), fun _ => hlistening⟩
    rcases Action.runOn_configureLogging_of_new config hnew with
      ⟨_, _, _, hrun, _⟩ | ⟨hnone, _⟩
    · exact congrArg Prod.fst hrun
    · exact absurd hoffers hnone

theorem LogConfig.offers_usual (v : Volume) : LogConfig.usual.Offers v where
  consoleFormat _ := by decide +kernel
  fileFormat h := absurd rfl h
  accepted _ h := absurd h.symm (Option.some_ne_none _)
  place := .inl rfl

end

section
open Inlay.Standard

/-- Silenced by a bad format, logging is shut down and listens again. -/
theorem listening_again_of_shut_down :
    let s := Workspace.holding []
    let bad : LogConfig := { LogConfig.usual with consoleFormat := "plain".toList }
    let first := ((Action.configureLogging .usual false).runOn s).2
    let silenced := ((Action.configureLogging bad true).runOn first).2
    let ended := (Action.shutDownLogging.runOn silenced).2
    let last := ((Action.configureLogging .usual false).runOn ended).2
    silenced.logging.isListening = false ∧ last.logging.ours = 1 ∧
      last.logging.isListening = true := by
  intro s bad first silenced ended last
  have hlife : Lifecycle s silenced := .configure _ _ (.configure _ _ .start)
  have hrenewable : Renewable s ended := .shutDown hlife
  obtain ⟨_, hagain⟩ := listening_again (s := s) (t := ended) (by decide) rfl rfl rfl
    (.shutDown hlife) .usual
  obtain ⟨_, hlistening⟩ := hagain (LogConfig.offers_usual ended.volume)
  exact ⟨by decide +kernel, hlistening.2 hrenewable⟩

/-- A forced call without any place to write to silences logging for good. -/
theorem exists_silenced_logging :
    let s := Workspace.holding []
    let nowhere : LogConfig := { LogConfig.usual with console := false }
    let first := ((Action.configureLogging .usual false).runOn s).2
    let silenced := ((Action.configureLogging nowhere true).runOn first).2
    let last := ((Action.configureLogging .usual false).runOn silenced).2
    Lifecycle s silenced ∧ LogConfig.usual.Offers silenced.volume ∧
      last.logging.configured = true ∧ last.logging.ours = 0 ∧
      last.logging.isListening = false := by
  intro s nowhere first silenced last
  exact ⟨.configure _ _ (.configure _ _ .start), LogConfig.offers_usual _, by decide +kernel,
    by decide +kernel, by decide +kernel⟩

end

end Inlay
