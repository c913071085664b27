import Inlay.Proofs.Settings.Checked
import Inlay.Proofs.Volume.Writing
import Inlay.Proofs.Watch.OwnOutputs
import Inlay.Proofs.Workspace.Files
import Inlay.Proofs.Workspace.Surroundings
import Mathlib

/-!
# A watch that lasts

An event is answered unless the current folder is gone when its path is to be spelled out
(`runOn_spellOut`). The way to a changed file is spelled from the folder, so asking what to do never
fails (`exists_runOn_asked`), and whatever a compilation fails with becomes an outcome. An answer is
decided by the files at that moment (`answer?`), and a run records the answers to its events
(`no_event_ends_watch`).
-/

namespace Inlay

open Inlay.Action

namespace Watch

/-! ### Asking -/

theorem isAbsolute_of_wayBelow? {v : Volume} {folder path way : Path}
    (h : wayBelow? v folder path = some way) : Path.isAbsolute way = false := by
  simp only [wayBelow?, Option.ite_none_left_eq_some, Option.some.injEq] at h
  rw [← h.2]
  exact Path.isAbsolute_relative _ _

section
variable {handler : Handler} {source target : Text}
  (hs : handler.profile.sourceExtension = some source)
  (ht : handler.profile.targetExtension = some target)
include hs ht

theorem exists_runOn_jobInFolder? (path : Path) (s : Workspace) :
    ∃ asked, (jobInFolder? handler path).runOn s = (.ok asked, s) := by
  unfold jobInFolder?
  rw [runOn_bind_of_ok (runOn_need_some hs s)]
  split
  · exact ⟨none, rfl⟩
  rw [runOn_bind_of_ok (runOn_get s)]
  split
  · exact ⟨none, rfl⟩
  · next way hway =>
    -- The path that is mirrored starts with the folder as it is spelled.
    obtain ⟨rest, hrest⟩ :=
      Path.exists_join_eq_append handler.input (isAbsolute_of_wayBelow? hway)
    rw [runOn_bind_of_ok (runOn_need_some ht s), hrest, Path.mirror_of_append]
    exact ⟨_, rfl⟩

/-- What an event asks for is always known, and asking changes nothing. -/
theorem exists_runOn_asked (event : Event) (s : Workspace) :
    ∃ asked, (jobOf? handler event).runOn s = (.ok asked, s) := by
  unfold jobOf?
  split
  · exact ⟨none, rfl⟩
  rw [runOn_bind_of_ok (runOn_isOwnOutput hs ht _ s)]
  split
  · exact ⟨none, rfl⟩
  split
  · exact exists_runOn_jobInFolder? hs ht event.path s
  · exact ⟨_, rfl⟩

end

/-! ### Spelling out -/

/-- The last name has the target extension, and is not that of a source. -/
def PassesForOutput (source target : Text) (path : Path) : Prop :=
  target <:+ Path.base path ∧ ¬ source <:+ Path.base path

instance (source target : Text) (path : Path) : Decidable (PassesForOutput source target path) :=
  inferInstanceAs (Decidable (_ ∧ _))

theorem passesForOutput_iff {source target : Text} {path : Path} :
    PassesForOutput source target path ↔
      (Path.hasExtension (Path.base path) target &&
        !Path.hasExtension (Path.base path) source) = true := by
  simp only [PassesForOutput, Path.hasExtension, Bool.and_eq_true, Bool.not_eq_true',
    ← Bool.not_eq_true, List.isSuffixOf_iff_suffix]

/-- The path of the event is compared with the one that is watched. -/
def Event.Compared (source target : Text) (isFolder : Bool) (e : Event) : Prop :=
  e.bringsFile = true ∧ ¬ PassesForOutput source target e.path ∧
    (isFolder = true → source <:+ e.path)

instance (source target : Text) (isFolder : Bool) (e : Event) :
    Decidable (e.Compared source target isFolder) :=
  inferInstanceAs (Decidable (_ ∧ _))

/-- If the path of the event is compared with the one that is watched, both have an absolute form:
they are absolute already, or the current folder is there. -/
def Event.Answerable (source target : Text) (h : Handler) (v : Volume) (e : Event) : Prop :=
  e.Compared source target h.isFolder →
    v.get? v.current = some .folder ∨ e.path.isAbsolute = true ∧ h.input.isAbsolute = true

instance (source target : Text) (h : Handler) (v : Volume) (e : Event) :
    Decidable (e.Answerable source target h v) :=
  inferInstanceAs (Decidable (_ → _))

/-- The current folder is gone. -/
def goneFolder : Failure :=
  .os ⟨Errno.noEntry.code, Errno.noEntry.text, none⟩

section
variable {handler : Handler} {source target : Text}
  (hs : handler.profile.sourceExtension = some source)
  (ht : handler.profile.targetExtension = some target)
include hs ht

theorem runOn_comparesPaths (event : Event) (s : Workspace) :
    (comparesPaths handler event).runOn s =
      (.ok (decide (event.Compared source target handler.isFolder)), s) := by
  have hnews : (event.isFolder || !event.kind.bringsContent || event.path.isEmpty) =
      !event.bringsFile := by simp [Event.bringsFile]
  unfold comparesPaths
  rw [hnews]
  simp only [Event.Compared, passesForOutput_iff]
  cases event.bringsFile with
  | false => simp
  | true =>
    simp only [Bool.not_true, Bool.false_eq_true, if_false,
      runOn_bind_of_ok (runOn_isOwnOutput hs ht (Path.base event.path) s)]
    cases Path.hasExtension (Path.base event.path) target &&
      !Path.hasExtension (Path.base event.path) source with
    | true => simp
    | false =>
      cases hf : handler.isFolder with
      | false => simp
      | true =>
        simp only [if_true, Bool.false_eq_true, if_false, runOn_bind_of_ok (runOn_need_some hs s)]
        have hext : Path.hasExtension event.path source = decide (source <:+ event.path) := by
          rw [Bool.eq_iff_iff, Path.hasExtension, List.isSuffixOf_iff_suffix, decide_eq_true_iff]
        simp [hext]

/-- Only a comparison needs the current folder. -/
theorem runOn_spellOut (event : Event) (s : Workspace) :
    (spellOut handler event).runOn s =
      (if event.Answerable source target handler s.volume then .ok () else .error goneFolder,
        s) := by
  unfold spellOut
  rw [runOn_bind_of_ok (runOn_comparesPaths hs ht event s)]
  by_cases hcompared : event.Compared source target handler.isFolder
  · simp only [hcompared, decide_true, if_true, Event.Answerable, forall_const]
    by_cases hpath : event.path.isAbsolute = true ∨
        s.volume.get? s.volume.current = some .folder
    · rw [runOn_bind_of_ok (runOn_absolute hpath)]
      by_cases hinput : handler.input.isAbsolute = true ∨
          s.volume.get? s.volume.current = some .folder
      · rw [runOn_bind_of_ok (runOn_absolute hinput), if_pos (by tauto)]
        rfl
      · rw [runOn_bind_of_error (runOn_absolute_of_gone hinput), if_neg (by tauto)]
        rfl
    · rw [runOn_bind_of_error (runOn_absolute_of_gone hpath), if_neg (by tauto)]
      rfl
  · simp only [hcompared, decide_false, Bool.false_eq_true, if_false, Event.Answerable,
      false_implies, if_true]
    rfl

end

/-! ### What decides a job -/

theorem seesFiles_isOwnOutput (profile : Profile) (name : Text) :
    SeesFiles (isOwnOutput profile name) := by
  unfold isOwnOutput
  refine sees_bind (sees_need _ _) fun target => ?_
  split
  · exact sees_bind (sees_need _ _) fun _ => sees_pure _
  · exact sees_pure _

theorem seesFiles_jobInFolder? (handler : Handler) (path : Path) :
    SeesFiles (jobInFolder? handler path) := by
  unfold jobInFolder?
  refine sees_bind (sees_need _ _) fun source => ?_
  split
  · exact sees_pure _
  refine sees_get (fun s t h => by rw [h.volume]) fun s => ?_
  split
  · exact sees_pure _
  refine sees_bind (sees_need _ _) fun target => ?_
  split
  · exact sees_pure _
  · exact sees_throw _

theorem seesFiles_jobOf? (handler : Handler) (event : Event) :
    SeesFiles (jobOf? handler event) := by
  unfold jobOf?
  split
  · exact sees_pure _
  refine sees_bind (seesFiles_isOwnOutput _ _) fun own => ?_
  split
  · exact sees_pure _
  split
  · exact seesFiles_jobInFolder? _ _
  · exact sees_get (fun s t h => by rw [h.volume]) fun s => sees_pure _

end Watch

namespace Compile

variable [Host]

theorem seesFiles_compileFile (compiler : Compiler) (profile : Profile) (job : Job) :
    SeesFiles (compileFile compiler profile job) := by
  unfold compileFile
  refine sees_bind (sees_need _ _) fun encoding =>
    sees_bind (seesFiles_readSource _ _) fun source => ?_
  cases transform compiler profile.tags job.source source with
  | error f => exact sees_throw f
  | ok output =>
    exact sees_bind (seesFiles_ensureParent _) fun _ =>
      sees_bind (seesFiles_writeOutput _ _ _) fun _ => seesFiles_log _ _ _

theorem seesFiles_toOutcome (compiler : Compiler) (profile : Profile) (job : Job) :
    SeesFiles (toOutcome compiler profile job) := by
  unfold toOutcome
  refine sees_bind (sees_attempt (seesFiles_compileFile _ _ _)) fun result => ?_
  cases result with
  | ok _ => exact sees_pure _
  | error f =>
    dsimp only
    split
    · exact sees_bind (seesFiles_log _ _ _) fun _ => sees_pure _
    · exact sees_throw f

end Compile

namespace Watch

variable [Host]

/-! ### What decides an answer -/

theorem seesFiles_recompile (handler : Handler) (job : Job) :
    SeesFiles (recompile handler job) := by
  have hdone (outcome : Outcome) : SeesFiles (do
      if outcome.ok then
        log Level.info logger s!"Recompiled '{str job.source}' -> '{str job.output}'"
      pure outcome) := by
    dsimp only
    split
    · exact sees_bind (seesFiles_log _ _ _) fun _ => sees_pure _
    · exact sees_pure _
  unfold recompile
  refine sees_bind (sees_attempt (Compile.seesFiles_toOutcome _ _ _)) fun result => ?_
  cases result with
  | ok outcome => exact sees_bind (sees_pure outcome) hdone
  | error f =>
    dsimp only
    split
    · exact sees_bind (sees_throw f) hdone
    · exact sees_bind (seesFiles_log _ _ _) fun _ => sees_bind (sees_pure _) hdone

theorem seesFiles_handle (handler : Handler) (event : Event) :
    SeesFiles (handle handler event) := by
  unfold handle
  refine sees_bind (seesFiles_jobOf? _ _) fun asked => ?_
  cases asked with
  | none => exact sees_pure _
  | some job => exact sees_bind (seesFiles_recompile _ _) fun _ => sees_pure _

/-- The answer to an event when the files are these and those faults are to come. -/
def answer? (h : Handler) (e : Event) (v : Volume) (faults : List PlannedFault) :
    Option Outcome :=
  match ((handle h e).runOn { Workspace.initial [] [] with volume := v, faults := faults }).1 with
  | .ok answer => answer
  | .error _ => none

theorem answer?_of_runOn_handle {handler : Handler} {event : Event} {s t : Workspace}
    {answer : Option Outcome} (h : (handle handler event).runOn s = (.ok answer, t)) :
    answer? handler event s.volume s.faults = answer := by
  obtain ⟨hsame, _⟩ := seesFiles_handle handler event s
    { Workspace.initial [] [] with volume := s.volume, faults := s.faults } ⟨rfl, rfl⟩
  rw [answer?, hsame, h]

/-- The answer to a job is what is recorded of its compilation. -/
theorem answer?_of_toOutcome {handler : Handler} {event : Event} {job : Job} {s t : Workspace}
    {result : Except Failure Outcome} {o : Outcome}
    (hasked : (jobOf? handler event).runOn s = (.ok (some job), s))
    (h : (Compile.toOutcome handler.compiler handler.profile job).runOn s = (result, t))
    (ho : recorded job result = .ok o) : answer? handler event s.volume s.faults = some o := by
  obtain ⟨u, hrecorded⟩ := exists_runOn_recompile_of_toOutcome h
  rw [ho] at hrecorded
  refine answer?_of_runOn_handle (t := u) ?_
  rw [runOn_handle_of_some hasked, map_eq_pure_bind]
  exact runOn_bind_of_ok hrecorded

/-! ### Events -/

variable {σ : Type}

/-- What an event may do to a watch: it is let go and nothing happens, or its job is compiled,
whatever comes of that is recorded, and the listener is told once. -/
inductive Answers (h : Handler) (tell : Listener σ) (e : Event) (w : Watching σ) :
    Option Outcome → Watching σ → Prop
  | ignored : (jobOf? h e).runOn w.workspace = (.ok none, w.workspace) → Answers h tell e w none w
  | recompiled {job : Job} {o : Outcome} {s t : Workspace} {x : σ} :
      (jobOf? h e).runOn w.workspace = (.ok (some job), w.workspace) →
      (recompile h job).runOn w.workspace = (.ok o, s) →
      o.source = job.source → o.output = job.output →
      tell o (s, w.listener) = (.ok (), t, x) →
      Answers h tell e w (some o) ⟨t, w.outcomes ++ [o], x⟩

/-- The listener does not fail. -/
def Listener.Calm (tell : Listener σ) : Prop :=
  ∀ o x, (tell o x).1 = .ok ()

/-- A job is compiled, and what comes of that is recorded, unless the compiler leaves the
interpreter. -/
theorem onEvent_of_asked {handler : Handler} {event : Event} {w : Watching σ} {job : Job}
    (hasked : (jobOf? handler event).runOn w.workspace = (.ok (some job), w.workspace))
    (tell : Listener σ) :
    (∃ o s, (recompile handler job).runOn w.workspace = (.ok o, s) ∧
      o.source = job.source ∧ o.output = job.output ∧
      onEvent handler tell event w =
        ((tell o (s, w.listener)).1,
          ⟨(tell o (s, w.listener)).2.1, w.outcomes ++ [o], (tell o (s, w.listener)).2.2⟩)) ∨
    ¬ handler.compiler.Stays ∧ ∃ f s, f.leaves = true ∧
      (recompile handler job).runOn w.workspace = (.error f, s) ∧
      onEvent handler tell event w = (.error f, { w with workspace := s }) := by
  have hhandle := runOn_handle_of_some hasked
  obtain ⟨result, s, hrun, hok, herror⟩ := exists_runOn_recompile handler job w.workspace
  rw [map_eq_pure_bind] at hhandle
  cases result with
  | ok o =>
    rw [runOn_bind_of_ok hrun] at hhandle
    obtain ⟨hsource, houtput⟩ := hok o rfl
    exact Or.inl ⟨o, s, hrun, hsource, houtput, by rw [onEvent, hhandle]; rfl⟩
  | error f =>
    rw [runOn_bind_of_error hrun] at hhandle
    obtain ⟨hleaves, hgoes⟩ := herror f rfl
    exact Or.inr ⟨hgoes, f, s, hleaves, hrun, by rw [onEvent, hhandle]⟩

theorem exists_onEvent {handler : Handler} (hc : handler.profile.Checked)
    (hstays : handler.compiler.Stays) {tell : Listener σ} (htell : tell.Calm) (event : Event)
    (w : Watching σ) :
    ∃ w', onEvent handler tell event w = (.ok (), w') ∧
      Answers handler tell event w
        (answer? handler event w.workspace.volume w.workspace.faults) w' := by
  obtain ⟨source, target, hs, ht, _⟩ := hc.extensions
  obtain ⟨asked, hasked⟩ := exists_runOn_asked hs ht event w.workspace
  cases asked with
  | none =>
    have hrun := runOn_handle_of_none hasked
    refine ⟨w, by rw [onEvent, hrun], ?_⟩
    rw [answer?_of_runOn_handle hrun]
    exact .ignored hasked
  | some job =>
    obtain ⟨o, s, hrecompile, hsource, houtput⟩ :=
      exists_runOn_recompile_of_stays hstays job w.workspace
    have hrun : (handle handler event).runOn w.workspace = (.ok (some o), s) := by
      rw [runOn_handle_of_some hasked, map_eq_pure_bind]
      exact runOn_bind_of_ok hrecompile
    cases htold : tell o (s, w.listener) with
    | mk result after =>
      obtain rfl : result = .ok () := by
        have hcalm := htell o (s, w.listener)
        rwa [htold] at hcalm
      refine ⟨⟨after.1, w.outcomes ++ [o], after.2⟩, by simp only [onEvent, hrun, htold], ?_⟩
      rw [answer?_of_runOn_handle hrun]
      exact .recompiled hasked hrecompile hsource houtput htold

section
variable {handler : Handler} (hc : handler.profile.Checked) {source target : Text}
  (hs : handler.profile.sourceExtension = some source)
  (ht : handler.profile.targetExtension = some target)
include hs ht

theorem receive_of_answerable {tell : Listener σ} {event : Event} {w : Watching σ}
    (h : event.Answerable source target handler w.workspace.volume) :
    receive handler tell event w = onEvent handler tell event w := by
  rw [receive, runOn_spellOut hs ht, if_pos h]

/-- With the current folder an event fails that is to be compared, and nothing happens. -/
theorem receive_of_not_answerable {tell : Listener σ} {event : Event} {w : Watching σ}
    (h : ¬ event.Answerable source target handler w.workspace.volume) :
    receive handler tell event w = (.error goneFolder, w) := by
  rw [receive, runOn_spellOut hs ht, if_neg h]

end

/-! ### Runs -/

/-- A run of events. Before each of them the workspace may have become any other. -/
def runEvents (act : Event → Watching σ → Except Failure Unit × Watching σ) :
    List (Workspace × Event) → Watching σ → Except Failure Unit × Watching σ
  | [], w => (.ok (), w)
  | (s, e) :: rest, w =>
    match act e { w with workspace := s } with
    | (.ok (), w) => runEvents act rest w
    | (.error f, w) => (.error f, w)

/-- The answers to a run of events, each decided by what was there when its event came. -/
def answers (h : Handler) (run : List (Workspace × Event)) : List Outcome :=
  run.filterMap fun step => answer? h step.2 step.1.volume step.1.faults

theorem answers_cons (h : Handler) (s : Workspace) (e : Event) (run : List (Workspace × Event)) :
    answers h ((s, e) :: run) = (answer? h e s.volume s.faults).toList ++ answers h run := by
  rw [answers, List.filterMap_cons]
  cases answer? h e s.volume s.faults <;> rfl

/-- `heard` is a record of what the listener has been told. -/
def Listener.Hears (tell : Listener σ) (heard : σ → List Outcome) : Prop :=
  ∀ o x, heard (tell o x).2.2 = heard x.2 ++ [o]

theorem Answers.outcomes_eq {h : Handler} {tell : Listener σ} {e : Event} {w w' : Watching σ}
    {answer : Option Outcome} (ha : Answers h tell e w answer w') :
    w'.outcomes = w.outcomes ++ answer.toList := by
  cases ha with
  | ignored => simp
  | recompiled => rfl

theorem Answers.heard_eq {h : Handler} {tell : Listener σ} {e : Event} {w w' : Watching σ}
    {answer : Option Outcome} (ha : Answers h tell e w answer w') {heard : σ → List Outcome}
    (hheard : tell.Hears heard) : heard w'.listener = heard w.listener ++ answer.toList := by
  cases ha with
  | ignored => simp
  | @recompiled _ o s _ _ _ _ _ _ htold =>
    have hlast := hheard o (s, w.listener)
    rwa [htold] at hlast

section
variable {handler : Handler} (hc : handler.profile.Checked) (hstays : handler.compiler.Stays)
  {source target : Text} (hs : handler.profile.sourceExtension = some source)
  (ht : handler.profile.targetExtension = some target) {tell : Listener σ} (htell : tell.Calm)
include hc hstays hs ht htell

theorem exists_receive (event : Event) (w : Watching σ)
    (h : event.Answerable source target handler w.workspace.volume) :
    ∃ w', receive handler tell event w = (.ok (), w') ∧
      Answers handler tell event w
        (answer? handler event w.workspace.volume w.workspace.faults) w' := by
  rw [receive_of_answerable hs ht h]
  exact exists_onEvent hc hstays htell event w

theorem exists_runEvents (run : List (Workspace × Event)) (start : Watching σ)
    (h : ∀ step ∈ run, step.2.Answerable source target handler step.1.volume) :
    ∃ finish, runEvents (receive handler tell) run start = (.ok (), finish) ∧
      finish.outcomes = start.outcomes ++ answers handler run ∧
      ∀ heard, tell.Hears heard →
        heard finish.listener = heard start.listener ++ answers handler run := by
  induction run generalizing start with
  | nil => exact ⟨start, rfl, by simp [answers], by simp [answers]⟩
  | cons step run ih =>
    obtain ⟨s, event⟩ := step
    obtain ⟨hfirst, hrest⟩ := List.forall_mem_cons.1 h
    obtain ⟨w, hrun, hanswers⟩ :=
      exists_receive hc hstays hs ht htell event { start with workspace := s } hfirst
    obtain ⟨finish, hfinish, houtcomes, htold⟩ := ih w hrest
    refine ⟨finish, by rw [runEvents, hrun]; exact hfinish, ?_, fun heard hheard => ?_⟩
    · rw [houtcomes, hanswers.outcomes_eq, answers_cons, List.append_assoc]
    · rw [htold heard hheard, hanswers.heard_eq hheard, answers_cons, List.append_assoc]

end

omit [Host] in
/-- Where something is, the folder of its absolute path is known. -/
theorem runOn_watchedFolder {path : Path} {s : Workspace} {entry : Entry}
    (h : s.volume.stat path = .ok entry) :
    (Path.folder <$> Action.absolute path).runOn s =
      (.ok (Path.folder (s.volume.absolute path)), s) := by
  rw [map_eq_pure_bind]
  exact runOn_bind_of_ok (runOn_absolute (Volume.standing_of_stat h))

/-- A watch of something that exists starts with the compiler and the settings that it is given. -/
theorem exists_runOn_watchPath {request : Request} {profile : Profile} {s : Workspace}
    (hc : profile.Checked) (hentry : s.volume.hasEntry request.input = true)
    (compiler : Compiler) :
    ∃ watch t, (watchPath request profile (some compiler)).runOn s = (.ok watch, t) ∧
      watch.handler.input = request.input ∧ watch.handler.compiler = compiler ∧
      watch.handler.profile = profile := by
  obtain ⟨source, target, hs, ht, _⟩ := hc.extensions
  obtain ⟨entry, hstat⟩ : ∃ entry, s.volume.stat request.input = .ok entry := by
    unfold Volume.hasEntry at hentry
    cases hstat : s.volume.stat request.input with
    | ok entry => exact ⟨entry, rfl⟩
    | error e =>
      rw [hstat] at hentry
      simp [Except.toOption] at hentry
  unfold watchPath
  rw [runOn_bind_of_ok (runOn_get s)]
  simp only [hentry, Bool.not_true, Bool.false_eq_true, if_false, pure_bind]
  rw [runOn_bind_of_ok (runOn_need_some ht s), runOn_bind_of_ok (runOn_need_some hs s)]
  cases s.volume.isFolder request.input with
  | true =>
    simp only [if_true]
    rw [runOn_bind_of_ok (runOn_log _ _ _ s)]
    exact ⟨_, _, rfl, rfl, rfl, rfl⟩
  | false =>
    simp only [Bool.false_eq_true, if_false]
    rw [runOn_bind_of_ok (runOn_watchedFolder hstat), runOn_bind_of_ok (runOn_log _ _ _ s)]
    exact ⟨_, _, rfl, rfl, rfl, rfl⟩

/-- Whatever happens to the files and whatever a compilation fails with, an event is answered,
unless its path is to be compared with the one that is watched and the current folder, which one of
them needs, is gone: then it fails. A run of events that are answered has recorded the answers, and
has told the listener the same. -/
theorem no_event_ends_watch {mode : CheckMode} {given : Value} {table : Table}
    {findings : List Finding} (hcheck : checkSettings mode given = .ok (table, findings))
    {request : Request} {s : Workspace} (hentry : s.volume.hasEntry request.input = true)
    {compiler : Compiler} (hstays : compiler.Stays) :
    ∃ source target watch t, (Profile.ofTable table).sourceExtension = some source ∧
      (Profile.ofTable table).targetExtension = some target ∧
      (watchPath request (Profile.ofTable table) (some compiler)).runOn s = (.ok watch, t) ∧
      watch.handler.input = request.input ∧ watch.handler.compiler = compiler ∧
      ∀ {σ : Type} (tell : Listener σ), tell.Calm →
        (∀ (event : Event) (w : Watching σ),
          (event.Answerable source target watch.handler w.workspace.volume →
            ∃ w', receive watch.handler tell event w = (.ok (), w') ∧
              Answers watch.handler tell event w
                (answer? watch.handler event w.workspace.volume w.workspace.faults) w') ∧
          (¬ event.Answerable source target watch.handler w.workspace.volume →
            receive watch.handler tell event w = (.error goneFolder, w))) ∧
        ∀ (run : List (Workspace × Event)) (start : Watching σ),
          (∀ step ∈ run, step.2.Answerable source target watch.handler step.1.volume) →
          ∃ finish, runEvents (receive watch.handler tell) run start = (.ok (), finish) ∧
            finish.outcomes = start.outcomes ++ answers watch.handler run ∧
            ∀ heard, tell.Hears heard →
              heard finish.listener = heard start.listener ++ answers watch.handler run := by
  have hc := checked_of_checkSettings hcheck
  obtain ⟨source, target, hs, ht, _⟩ := hc.extensions
  obtain ⟨watch, t, hrun, hinput, hcompiler, hprofile⟩ := exists_runOn_watchPath hc hentry compiler
  refine ⟨source, target, watch, t, hs, ht, hrun, hinput, hcompiler, fun tell htell => ?_⟩
  rw [← hprofile] at hc hs ht
  rw [← hcompiler] at hstays
  exact ⟨fun event w => ⟨exists_receive hc hstays hs ht htell event w,
    receive_of_not_answerable hs ht⟩, exists_runEvents hc hstays hs ht htell⟩

end Watch

end Inlay

namespace Inlay.Watch

open Inlay.Standard Inlay.Action

/-- Crashes on some fragments. -/
def flaky : Compiler :=
  .ofFunction (fun source => if source.contains 'x' then .error (.crash "compiler crashed")
    else .ok (.text source)) "flaky".toList

theorem stays_flaky : flaky.Stays := by
  intro source f h
  simp only [flaky, Compiler.ofFunction] at h
  split at h
  · simp at h
  · split at h
    · rw [← Except.error.inj h]
      rfl
    · simp at h

def inPlaceBy (compiler : Compiler) : Handler :=
  { inPlace Setting.defaults with compiler := compiler }

def oneCrash : Workspace :=
  .holding [([['r']], .folder),
    ([['r'], "a.tea".toList], .file (Utf8.encode "<?tea x ?>".toList))]

def sourceChanged : Event :=
  ⟨.modified, false, "r/a.tea".toList, []⟩

/-- A listener that keeps what it is told. -/
def remembering : Listener (List Outcome) :=
  fun o (s, heard) => (.ok (), s, heard ++ [o])

theorem runOn_jobOf?_inPlaceBy (compiler : Compiler) (s : Workspace) :
    (jobOf? (inPlaceBy compiler) sourceChanged).runOn s =
      (.ok (some ⟨"r/a.tea".toList, "r/a.php".toList⟩), s) := by
  have hs : (inPlaceBy compiler).profile.sourceExtension = some ".tea".toList := rfl
  have ht : (inPlaceBy compiler).profile.targetExtension = some ".php".toList := rfl
  have hname : ∀ n ∈ ["a.tea".toList], Path.IsName n := by decide
  have hpath : Path.descend ['r'] ["a.tea".toList] = "r/a.tea".toList := by decide
  have hplace : Path.under ['r'] (Path.mirrored ".php".toList ".tea".toList ["a.tea".toList]) =
      "r/a.php".toList := by decide
  have hway : Path.components (s.volume.absolute sourceChanged.path) =
      Path.components (s.volume.absolute ['r']) ++ ["a.tea".toList] := by
    rw [show sourceChanged.path = Path.descend ['r'] ["a.tea".toList] from hpath.symm]
    exact Path.components_absolute_descend rfl ['r'] hname
  have hasked : (jobOf? (inPlaceBy compiler) sourceChanged).runOn s = _ :=
    runOn_jobOf?_of_way hs ht (by decide) rfl (List.cons_ne_nil _ []) hname hway
  rw [if_pos (by decide)] at hasked
  rw [hasked, inPlaceBy, inPlace, hpath, hplace]

/-- After a crash the watch goes on, and compiles the file when it has been repaired. -/
theorem no_event_ends_watch_of_crash :
    ∃ watch t finish,
      (watchPath ⟨"watch", ['r'], none, false⟩ (Profile.ofTable Setting.defaults)
        (some flaky)).runOn oneSource = (.ok watch, t) ∧
      runEvents (receive watch.handler remembering)
        [(oneCrash, sourceChanged), (oneSource, sourceChanged)] ⟨t, [], []⟩ = (.ok (), finish) ∧
      finish.outcomes =
        [.failed "r/a.tea".toList "r/a.php".toList "compiler crashed",
          .compiled "r/a.tea".toList "r/a.php".toList] ∧
      finish.listener = finish.outcomes := by
  have hcheck : checkSettings .lenient (.table []) = .ok (Setting.defaults, []) := rfl
  have hentry : oneSource.volume.hasEntry (Request.mk "watch" ['r'] none false).input = true := by
    cbv
  obtain ⟨source, target, watch, t, _, _, hwatch, _, _, hlasts⟩ :=
    no_event_ends_watch hcheck hentry stays_flaky
  obtain ⟨_, hruns⟩ := hlasts remembering fun _ _ => rfl
  obtain ⟨finish, hrun, houtcomes, htold⟩ :=
    hruns [(oneCrash, sourceChanged), (oneSource, sourceChanged)] ⟨t, [], []⟩
      (List.forall_mem_cons.2
        ⟨fun _ => Or.inl rfl, List.forall_mem_singleton.2 fun _ => Or.inl rfl⟩)
  have hheard : finish.listener = finish.outcomes := (htold id fun _ _ => rfl).trans houtcomes.symm
  refine ⟨watch, t, finish, hwatch, hrun, houtcomes.trans ?_, hheard⟩
  have hstart : (watchPath ⟨"watch", ['r'], none, false⟩ (Profile.ofTable Setting.defaults)
      (some flaky)).runOn oneSource =
        (.ok ⟨['r'], inPlaceBy flaky, [.schedule ['r'] true, .start], false⟩,
          oneSource.logged ⟨Level.info, logger, "Watching r (output: r)"⟩) := by cbv
  obtain rfl := Except.ok.inj (Prod.mk.inj (hwatch.symm.trans hstart)).1
  obtain ⟨_, hcrash⟩ : ∃ u, (Compile.toOutcome flaky (Profile.ofTable Setting.defaults)
      ⟨"r/a.tea".toList, "r/a.php".toList⟩).runOn oneCrash =
        (.error (.crash "compiler crashed"), u) := ⟨_, by cbv⟩
  obtain ⟨_, hcompiled⟩ : ∃ u, (Compile.toOutcome flaky (Profile.ofTable Setting.defaults)
      ⟨"r/a.tea".toList, "r/a.php".toList⟩).runOn oneSource =
        (.ok (.compiled "r/a.tea".toList "r/a.php".toList), u) := ⟨_, by cbv⟩
  have hfirst : answer? (inPlaceBy flaky) sourceChanged oneCrash.volume oneCrash.faults =
      some (.failed "r/a.tea".toList "r/a.php".toList "compiler crashed") :=
    answer?_of_toOutcome (runOn_jobOf?_inPlaceBy flaky oneCrash) hcrash rfl
  have hsecond : answer? (inPlaceBy flaky) sourceChanged oneSource.volume oneSource.faults =
      some (.compiled "r/a.tea".toList "r/a.php".toList) :=
    answer?_of_toOutcome (runOn_jobOf?_inPlaceBy flaky oneSource) hcompiled rfl
  rw [answers_cons, answers_cons, hfirst, hsecond]
  rfl

/-- A folder that is watched from the folder around it, which then goes. -/
def fromAround : Workspace :=
  { oneSource with
    volume := ⟨[([['w']], .folder), ([['w'], ['r']], .folder)], [['w']], .unbounded⟩ }

def goneAround : Workspace :=
  { oneSource with volume := ⟨[], [['w']], .unbounded⟩ }

/-- Without its current folder the watch does not come to an answer. -/
theorem exists_event_without_answer :
    ∃ (watch : Subscription) (t : Workspace),
      checkSettings .lenient (.table []) = .ok (Setting.defaults, []) ∧
      fromAround.volume.hasEntry ['r'] = true ∧
      (watchPath ⟨"watch", ['r'], none, false⟩ (Profile.ofTable Setting.defaults)
        (some .passthrough)).runOn fromAround = (.ok watch, t) ∧
      receive watch.handler remembering sourceChanged ⟨goneAround, [], []⟩ =
        (.error goneFolder, ⟨goneAround, [], []⟩) := by
  have hcheck : checkSettings .lenient (.table []) = .ok (Setting.defaults, []) := rfl
  have hentry : fromAround.volume.hasEntry (Request.mk "watch" ['r'] none false).input = true := by
    cbv
  obtain ⟨watch, t, hwatch, _, _, hprofile⟩ :=
    exists_runOn_watchPath (checked_of_checkSettings hcheck) hentry .passthrough
  have hs : (Profile.ofTable Setting.defaults).sourceExtension = some ".tea".toList := rfl
  have ht : (Profile.ofTable Setting.defaults).targetExtension = some ".php".toList := rfl
  rw [← hprofile] at hs ht
  refine ⟨watch, t, hcheck, hentry, hwatch, receive_of_not_answerable hs ht fun h => ?_⟩
  have hcompared : sourceChanged.Compared ".tea".toList ".php".toList watch.handler.isFolder := by
    cases watch.handler.isFolder <;> decide
  rcases h hcompared with hstanding | ⟨hpath, _⟩
  · exact absurd hstanding (by decide)
  · exact absurd hpath (by decide)

end Inlay.Watch
