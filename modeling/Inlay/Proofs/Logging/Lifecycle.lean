import Inlay.Proofs.Workspace.Run
import Inlay.Workspace.Logs
import Mathlib

/-!
# The life of logging

Logging is set up and shut down any number of times, beside handlers of others (`Lifecycle`). The
only handler of our own is that of the stored listener, and only that listener runs (`Orderly`), so
that nothing is written twice and nobody else loses a handler (`logging_in_order`).
-/

namespace Inlay

namespace Logging

/-- Nothing has been started or stopped between two states. -/
structure SameLife (l m : Logging) : Prop where
  handlers : m.handlers = l.handlers
  stored : m.stored = l.stored
  running : m.running = l.running
  started : m.started = l.started
  configured : m.configured = l.configured

/-- Besides the handlers of others there is the one of the stored listener, which is the only one
that runs. -/
structure Orderly (others : List LogHandler) (l : Logging) : Prop where
  others : l.handlers.filter (!·.isOurs) = others
  own : l.handlers.filter (·.isOurs) = l.stored.toList.map .queue
  running : l.running.map Prod.fst = l.stored.toList

variable {others : List LogHandler} {l m : Logging}

theorem Orderly.of_sameLife (h : Orderly others l) (hm : l.SameLife m) : Orderly others m :=
  ⟨hm.handlers ▸ h.others, by rw [hm.handlers, hm.stored]; exact h.own,
    by rw [hm.running, hm.stored]; exact h.running⟩

theorem orderly_of_fresh (hours : l.ours = 0) (hstored : l.stored = none)
    (hrunning : l.running = []) : Orderly l.handlers l := by
  have hforeign : ∀ h ∈ l.handlers, ¬ h.isOurs = true := List.countP_eq_zero.1 hours
  constructor
  · exact List.filter_eq_self.2 fun h hh => by simp [hforeign h hh]
  · rw [List.filter_eq_nil_iff.2 hforeign, hstored]
    rfl
  · rw [hrunning, hstored]
    rfl

/-! ### What an orderly state tells -/

theorem Orderly.ours_eq (h : Orderly others l) : l.ours = l.stored.toList.length := by
  rw [ours, List.countP_eq_length_filter, h.own, List.length_map]

theorem Orderly.running_cases (h : Orderly others l) :
    (l.stored = none ∧ l.running = []) ∨
      ∃ listener sinks, l.stored = some listener ∧ l.running = [(listener, sinks)] := by
  have hrun := h.running
  cases hs : l.stored with
  | none =>
    rw [hs] at hrun
    exact Or.inl ⟨rfl, List.map_eq_nil_iff.1 hrun⟩
  | some listener =>
    rw [hs] at hrun
    obtain ⟨⟨n, sinks⟩, hsingle, rfl⟩ := List.map_eq_singleton_iff.1 hrun
    exact Or.inr ⟨n, sinks, rfl, hsingle⟩

theorem Orderly.isListening_iff (h : Orderly others l) :
    l.isListening = true ↔ l.ours = 1 := by
  rw [h.ours_eq]
  rcases h.running_cases with ⟨hs, hr⟩ | ⟨listener, sinks, hs, hr⟩
  · simp [isListening, hs]
  · simp [isListening, sinksOf?, hs, hr]

theorem Orderly.sinksOf?_eq_none (h : Orderly others l) {listener : Nat}
    (hother : l.stored ≠ some listener) : l.sinksOf? listener = none := by
  rcases h.running_cases with ⟨_, hr⟩ | ⟨n, sinks, hs, hr⟩
  · rw [sinksOf?, hr]
    rfl
  · have hn : listener ≠ n := fun he => hother (he ▸ hs)
    simp [sinksOf?, hr, List.lookup, beq_false_of_ne hn]

/-! ### Starting and stopping -/

theorem stored_clear (l : Logging) (level : Int) : (l.clear level).stored = none := by
  unfold clear stop
  split
  · rfl
  · assumption

theorem stored_shutDown (l : Logging) : l.shutDown.stored = none := by
  unfold shutDown stop detach
  split
  · rfl
  · assumption

theorem handlers_stop (l : Logging) : l.stop.handlers = l.handlers := by
  unfold stop
  split <;> rfl

theorem Orderly.running_stop (h : Orderly others l) : l.stop.running = [] := by
  rcases h.running_cases with ⟨hs, hr⟩ | ⟨listener, sinks, hs, hr⟩
  · simp [stop, hs, hr]
  · simp [stop, hs, hr]

/-- Without handlers of our own and without a listener, a state keeps the handlers of others. -/
theorem Orderly.of_stopped (h : Orderly others l)
    (hhandlers : m.handlers = l.handlers.filter (!·.isOurs)) (hstored : m.stored = none)
    (hrunning : m.running = []) : Orderly others m := by
  have hours : m.ours = 0 := by
    rw [ours, hhandlers, List.countP_eq_zero]
    intro handler hh
    simpa using (List.mem_filter.1 hh).2
  have hm := orderly_of_fresh hours hstored hrunning
  rwa [hhandlers, h.others] at hm

theorem running_clear (l : Logging) (level : Int) :
    (l.clear level).running = l.stop.running := by
  unfold clear stop detach
  cases l.stored <;> rfl

theorem Orderly.clear (h : Orderly others l) (level : Int) : Orderly others (l.clear level) :=
  h.of_stopped (by rw [Logging.clear, handlers_stop]; rfl) (stored_clear l level)
    ((running_clear l level).trans h.running_stop)

theorem Orderly.shutDown (h : Orderly others l) : Orderly others l.shutDown :=
  h.of_stopped (by rw [Logging.shutDown, detach, handlers_stop]) (stored_shutDown l)
    h.running_stop

theorem Orderly.listen (h : Orderly others l) (hstored : l.stored = none)
    (sinks : List LogSink) : Orderly others (l.listen sinks) := by
  have hown := h.own
  have hrun := h.running
  rw [hstored] at hown hrun
  constructor
  · simp only [Logging.listen, List.filter_append, h.others]
    exact List.append_nil _
  · simp only [Logging.listen, List.filter_append, hown]
    rfl
  · simp only [Logging.listen, List.map_cons, hrun]
    rfl

end Logging

namespace Workspace

variable [Alphabet]

theorem logging_deliver (s : Workspace) (delivery : LogRecord × LogTarget) :
    (s.deliver delivery).logging = s.logging := by
  obtain ⟨record, target⟩ := delivery
  cases target <;> rfl

/-- Delivering what waits in the queues starts and stops nothing. -/
theorem sameLife_drain (s : Workspace) : s.logging.SameLife s.drain.logging := by
  have hfold : ∀ (out : List (LogRecord × LogTarget)) (t : Workspace),
      (out.foldl deliver t).logging = t.logging := by
    intro out
    induction out with
    | nil => exact fun t => rfl
    | cons d out ih => exact fun t => (ih (t.deliver d)).trans (logging_deliver t d)
  unfold drain
  rw [hfold]
  exact ⟨rfl, rfl, rfl, rfl, rfl⟩

end Workspace

namespace Action

/-! ### Setting up -/

variable {α β : Type}

def KeepsLogging (a : Action α) : Prop :=
  Steps (fun s t => t.logging = s.logging) a

theorem keepsLogging_pure (x : α) : KeepsLogging (pure x) := fun _ => rfl

theorem keepsLogging_throw (f : Failure) : KeepsLogging (throw f : Action α) := fun _ => rfl

theorem keepsLogging_bind {a : Action α} {f : α → Action β} (ha : KeepsLogging a)
    (hf : ∀ x, KeepsLogging (f x)) : KeepsLogging (a >>= f) :=
  steps_bind (fun _ _ _ h h' => h'.trans h) ha hf

theorem keepsLogging_guard (op : FileOp) (path : Path) : KeepsLogging (guard op path) := fun s => by
  rw [runOn_guard]

theorem keepsLogging_onVolume [Alphabet] (path : Path) (f : Volume → Except Errno Volume) :
    KeepsLogging (onVolume path f) := fun s => by
  cases hp : Path.refusal? path with
  | some refusal => rw [runOn_onVolume_of_refused hp]
  | none =>
    rw [runOn_onVolume (Path.refusal?_eq_none_iff.1 hp)]
    split
    · rfl
    · rfl

theorem KeepsLogging.cases {a : Action α} (h : KeepsLogging a) (s : Workspace) :
    (∃ f t, a.runOn s = (.error f, t) ∧ t.logging = s.logging) ∨
      ∃ x t, a.runOn s = (.ok x, t) ∧ t.logging = s.logging := by
  have hs := h s
  cases hrun : a.runOn s with
  | mk result t =>
    rw [hrun] at hs
    cases result with
    | error f => exact Or.inl ⟨f, t, rfl, hs⟩
    | ok x => exact Or.inr ⟨x, t, rfl, hs⟩

theorem keepsLogging_logTemplate (format : Text) : KeepsLogging (logTemplate format) := by
  unfold logTemplate
  split
  · exact keepsLogging_pure _
  · exact keepsLogging_throw _

theorem keepsLogging_consoleSinks (config : LogConfig) (level : Int) :
    KeepsLogging (consoleSinks config level) := by
  unfold consoleSinks
  split
  · exact keepsLogging_bind (keepsLogging_logTemplate _) fun _ => keepsLogging_pure _
  · exact keepsLogging_pure _

variable [Host]

theorem keepsLogging_openLog (path : Path) : KeepsLogging (openLog path) := by
  have hmake (path : Path) : KeepsLogging (ensureFolder false path) :=
    steps_makeFolders (R := fun s t => t.logging = s.logging) (fun _ => rfl)
      (fun _ _ _ h h' => h'.trans h) keepsLogging_guard
      (fun path => keepsLogging_onVolume path (·.makeFolder path)) _ _ _
  have habsolute : KeepsLogging (absolute path) :=
    (eq_absolute path).of_eq (R := fun s t => t.logging = s.logging) fun _ => rfl
  unfold openLog
  exact keepsLogging_bind habsolute fun full => keepsLogging_bind (hmake _) fun _ =>
    keepsLogging_bind (keepsLogging_onVolume _ _) fun _ => keepsLogging_pure _

theorem keepsLogging_openLogFile (config : LogConfig) (path : Path) :
    KeepsLogging (openLogFile config path) := by
  unfold openLogFile
  refine keepsLogging_bind (keepsLogging_logTemplate _) fun template =>
    keepsLogging_bind (steps_attempt (keepsLogging_openLog path)) fun opened => ?_
  split
  · exact keepsLogging_pure _
  · exact keepsLogging_bind (fun _ => rfl) fun _ => keepsLogging_pure _
  · exact keepsLogging_throw _

theorem keepsLogging_fileSinks (config : LogConfig) (level : Int) :
    KeepsLogging (fileSinks config level) := by
  unfold fileSinks
  split
  · exact keepsLogging_pure _
  · exact keepsLogging_bind (keepsLogging_openLogFile config _) fun _ => keepsLogging_pure _

/-- The sinks that settings ask for. -/
def gatherSinks (config : LogConfig) : Action (List LogSink) := do
  let console ← consoleSinks config (Level.parse config.level)
  let file ← fileSinks config (Level.parse config.level)
  return console ++ file

theorem keepsLogging_gatherSinks (config : LogConfig) : KeepsLogging (gatherSinks config) :=
  keepsLogging_bind (keepsLogging_consoleSinks config _) fun _ =>
    keepsLogging_bind (keepsLogging_fileSinks config _) fun _ => keepsLogging_pure _

theorem ne_nil_of_gatherSinks {config : LogConfig} {s t : Workspace} {sinks : List LogSink}
    (hconsole : config.console = true)
    (h : (gatherSinks config).runOn s = (.ok sinks, t)) : sinks ≠ [] := by
  rw [gatherSinks, consoleSinks, if_pos hconsole] at h
  obtain ⟨console, u, hrun, hrest⟩ := exists_of_runOn_bind h
  obtain ⟨template, v, _, hpure⟩ := exists_of_runOn_bind hrun
  obtain ⟨file, w, _, hjoin⟩ := exists_of_runOn_bind hrest
  rw [runOn_pure, Prod.mk.injEq, Except.ok.injEq] at hpure hjoin
  rw [← hjoin.1, ← hpure.1]
  exact List.cons_ne_nil _ _

/-- Logging as it is before it gets its sinks. -/
def clearedFor (config : LogConfig) (s : Workspace) : Logging :=
  s.drain.logging.clear (Level.parse config.level)

theorem runOn_configureLogging_of_skipped {config : LogConfig} {force : Bool} {s : Workspace}
    (hskip : (s.logging.configured && !force) = true) :
    (configureLogging config force).runOn s = (.ok (), s) := by
  have hlook : (look (·.logging)).runOn s = (.ok s.logging, s) := rfl
  rw [configureLogging, runOn_bind_of_ok hlook, hskip]
  rfl

theorem runOn_configureLogging_eq {config : LogConfig} {force : Bool} {s : Workspace}
    (hnew : (s.logging.configured && !force) = false) :
    (configureLogging config force).runOn s =
      (gatherSinks config >>= fun sinks => if sinks.isEmpty then pure () else
        modify fun t => { t with logging := t.logging.listen sinks }).runOn
        { s.drain with logging := clearedFor config s } := by
  have hlook : (look (·.logging)).runOn s = (.ok s.logging, s) := rfl
  rw [configureLogging, runOn_bind_of_ok hlook, hnew]
  simp only [Bool.false_eq_true, if_false]
  rw [runOn_bind_of_ok (runOn_modify _ s), runOn_bind_of_ok (runOn_modify _ s.drain)]
  simp only [gatherSinks, bind_assoc, pure_bind]
  rfl

/-- Setting up is skipped; or it takes down what there was, and then fails or starts a listener on
its sinks. -/
theorem runOn_configureLogging_cases (config : LogConfig) (force : Bool) (s : Workspace) :
    ((s.logging.configured && !force) = true ∧
        (configureLogging config force).runOn s = (.ok (), s)) ∨
      (∃ f t, (configureLogging config force).runOn s = (.error f, t) ∧
        t.logging = clearedFor config s) ∨
      ∃ sinks t, (configureLogging config force).runOn s = (.ok (), t) ∧
        (config.console = true → sinks ≠ []) ∧
        t.logging = if sinks.isEmpty then clearedFor config s
          else (clearedFor config s).listen sinks := by
  cases hskip : s.logging.configured && !force with
  | true => exact .inl ⟨rfl, runOn_configureLogging_of_skipped hskip⟩
  | false =>
    rw [runOn_configureLogging_eq hskip]
    refine .inr ?_
    rcases (keepsLogging_gatherSinks config).cases
      { s.drain with logging := clearedFor config s } with ⟨f, t, hrun, ht⟩ | ⟨sinks, t, hrun, ht⟩
    · exact .inl ⟨f, t, runOn_bind_of_error hrun, ht⟩
    have hsinks : config.console = true → sinks ≠ [] := fun hconsole =>
      ne_nil_of_gatherSinks hconsole hrun
    rw [runOn_bind_of_ok hrun]
    refine .inr ⟨sinks, ?_⟩
    cases sinks.isEmpty with
    | true => exact ⟨t, rfl, hsinks, ht⟩
    | false => exact ⟨_, rfl, hsinks, congrArg (Logging.listen · sinks) ht⟩

theorem orderly_clearedFor {others : List LogHandler} {s : Workspace}
    (h : s.logging.Orderly others) (config : LogConfig) :
    (clearedFor config s).Orderly others :=
  (h.of_sameLife s.sameLife_drain).clear _

theorem orderly_configureLogging {others : List LogHandler} {s : Workspace}
    (h : s.logging.Orderly others) (config : LogConfig) (force : Bool) :
    ((configureLogging config force).runOn s).2.logging.Orderly others := by
  have hcleared := orderly_clearedFor h config
  rcases runOn_configureLogging_cases config force s with
    ⟨_, hrun⟩ | ⟨f, t, hrun, ht⟩ | ⟨sinks, t, hrun, _, ht⟩
  · rwa [hrun]
  · rw [hrun, ht]
    exact hcleared
  · rw [hrun, ht]
    split
    · exact hcleared
    · exact hcleared.listen (Logging.stored_clear _ _) sinks

/-- Set up anew for the console, logging listens. -/
theorem stored_ne_none_of_configureLogging {config : LogConfig} {force : Bool} {s t : Workspace}
    (hrun : (configureLogging config force).runOn s = (.ok (), t))
    (hnew : (s.logging.configured && !force) = false) (hconsole : config.console = true) :
    t.logging.stored ≠ none := by
  rcases runOn_configureLogging_cases config force s with
    ⟨hskip, _⟩ | ⟨f, u, hrun', _⟩ | ⟨sinks, u, hrun', hsinks, hu⟩
  · rw [hnew] at hskip
    exact absurd hskip Bool.false_ne_true
  · rw [hrun] at hrun'
    simp at hrun'
  · rw [hrun, Prod.mk.injEq] at hrun'
    rw [hrun'.2, hu, if_neg (by simpa using hsinks hconsole)]
    exact Option.some_ne_none _

end Action

/-! ### Any number of times -/

section
variable [Host]

/-- Logging is set up and shut down again and again, whether or not that succeeds. In between
anything may happen that does neither. -/
inductive Lifecycle (s : Workspace) : Workspace → Prop
  | start : Lifecycle s s
  | elsewhere {t : Workspace} (u : Workspace) :
    Lifecycle s t → t.logging.SameLife u.logging → Lifecycle s u
  | configure {t : Workspace} (config : LogConfig) (force : Bool) :
    Lifecycle s t → Lifecycle s ((Action.configureLogging config force).runOn t).2
  | shutDown {t : Workspace} : Lifecycle s t → Lifecycle s (Action.shutDownLogging.runOn t).2

theorem Lifecycle.orderly {others : List LogHandler} {s t : Workspace} (h : Lifecycle s t)
    (hs : s.logging.Orderly others) : t.logging.Orderly others := by
  induction h with
  | start => exact hs
  | elsewhere u _ hsame ih => exact ih.of_sameLife hsame
  | configure config force _ ih => exact Action.orderly_configureLogging ih config force
  | @shutDown t _ ih => exact (ih.of_sameLife t.sameLife_drain).shutDown

/-- Logging has one handler of its own exactly as long as its listener runs, every other listener
has been stopped, and the handlers of others are as they were. Set up anew for the console it has
one, and shut down it has none. -/
theorem logging_in_order {s t : Workspace} (hforeign : s.logging.ours = 0)
    (hstored : s.logging.stored = none) (hrunning : s.logging.running = [])
    (h : Lifecycle s t) :
    t.logging.ours ≤ 1 ∧
    (t.logging.ours = 1 ↔ t.logging.isListening = true) ∧
    (∀ listener, t.logging.stored ≠ some listener → t.logging.sinksOf? listener = none) ∧
    t.logging.handlers.filter (!·.isOurs) = s.logging.handlers ∧
    (∀ config force u, (Action.configureLogging config force).runOn t = (.ok (), u) →
      (t.logging.configured && !force) = false → config.console = true → u.logging.ours = 1) ∧
    (Action.shutDownLogging.runOn t).2.logging.ours = 0 := by
  have hfresh := Logging.orderly_of_fresh hforeign hstored hrunning
  have horder := h.orderly hfresh
  refine ⟨?_, horder.isListening_iff.symm, fun _ => horder.sinksOf?_eq_none, horder.others,
    fun config force u hrun hnew hconsole => ?_, ?_⟩
  · rw [horder.ours_eq]
    exact Option.length_toList_le
  · have hu : Lifecycle s u := by
      have hstep := h.configure config force
      rwa [hrun] at hstep
    obtain ⟨listener, hl⟩ :=
      Option.ne_none_iff_exists'.1 (Action.stored_ne_none_of_configureLogging hrun hnew hconsole)
    rw [(hu.orderly hfresh).ours_eq, hl]
    rfl
  · rw [(h.shutDown.orderly hfresh).ours_eq]
    exact congrArg (·.toList.length) (Logging.stored_shutDown _)

end

section
open Inlay.Standard

/-- A forced configuration with a bad format takes down the first listener and ends, a later one
that is not forced does nothing, and the next forced one starts another listener. -/
theorem logging_in_order_of_reconfigured :
    let s : Workspace := { Workspace.holding [] with
      logging := { Logging.initial with handlers := [.foreign "a", .foreign "b"] } }
    let bad : LogConfig := { LogConfig.usual with consoleFormat := "plain".toList }
    let first := ((Action.configureLogging .usual false).runOn s).2
    let failed := ((Action.configureLogging bad true).runOn first).2
    let same := ((Action.configureLogging .usual false).runOn failed).2
    let last := ((Action.configureLogging .usual true).runOn same).2
    first.logging.stored = some 0 ∧ same.logging.ours = 0 ∧
    last.logging.handlers = [.foreign "a", .foreign "b", .queue 1] ∧ last.logging.ours = 1 ∧
    last.logging.isListening = true ∧ last.logging.sinksOf? 0 = none := by
  intro s bad first failed same last
  have hlife : Lifecycle s last :=
    .configure _ _ (.configure _ _ (.configure _ _ (.configure _ _ .start)))
  have hhandlers : last.logging.handlers = [.foreign "a", .foreign "b", .queue 1] := by
    decide +kernel
  have hstored : last.logging.stored = some 1 := by decide +kernel
  obtain ⟨_, hlistening, hstopped, _⟩ :=
    logging_in_order (s := s) (by decide) rfl rfl hlife
  have hours : last.logging.ours = 1 := by rw [Logging.ours, hhandlers]; rfl
  exact ⟨by decide +kernel, by decide +kernel, hhandlers, hours, hlistening.1 hours,
    hstopped 0 (by rw [hstored]; decide)⟩

end

end Inlay
