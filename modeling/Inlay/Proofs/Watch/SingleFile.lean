import Inlay.Proofs.Compile.Batch
import Inlay.Proofs.Watch.Contained

/-!
# Watching a single file

A single file may have any name, and so may its output. The handler leaves out names with the
target extension before it compares paths, so new content in the file is compiled exactly if the
last name of its path does not pass for that of an output (`single_file_recompiled`). A file with
the target extension is watched, and never compiled again (`exists_ignored_input_change`).
-/

namespace Inlay.Watch

variable [Host]

open Inlay.Action

/-! ### Events on the file -/

/-- A file event that leaves new content at the path of the input, however it is spelled. -/
structure Event.Renews (v : Volume) (input : Path) (e : Event) : Prop where
  file : e.isFolder = false
  kind : e.kind = .created ∨ e.kind = .modified ∨ e.kind = .moved
  path : e.path ≠ []
  same : v.absolute e.path = v.absolute input

omit [Host] in
theorem Event.renews_iff {v : Volume} {input : Path} {e : Event} :
    e.Renews v input ↔ e.bringsFile = true ∧ v.absolute e.path = v.absolute input := by
  rw [Event.bringsFile_iff]
  constructor
  · rintro ⟨hfile, hkind, hpath, hsame⟩
    exact ⟨⟨hfile, hkind, hpath⟩, hsame⟩
  · rintro ⟨⟨hfile, hkind, hpath⟩, hsame⟩
    exact ⟨hfile, hkind, hpath, hsame⟩

instance (v : Volume) (input : Path) (e : Event) : Decidable (e.Renews v input) :=
  decidable_of_iff _ Event.renews_iff.symm

/-- What a watched file is compiled for. -/
def Event.Answered (source target : Text) (input : Path) (v : Volume) (e : Event) : Prop :=
  e.Renews v input ∧ ¬ PassesForOutput source target e.path

instance (source target : Text) (input : Path) (v : Volume) (e : Event) :
    Decidable (e.Answered source target input v) :=
  inferInstanceAs (Decidable (_ ∧ _))

section
variable {handler : Handler} {source target : Text}
  (hs : handler.profile.sourceExtension = some source)
  (ht : handler.profile.targetExtension = some target) (hf : handler.isFolder = false)
include hs ht hf

omit [Host] in
theorem runOn_jobOf?_of_file (event : Event) (s : Workspace) :
    (jobOf? handler event).runOn s =
      (.ok (if event.Answered source target handler.input s.volume then
        some ⟨handler.input, handler.output⟩ else none), s) := by
  have hnews : (event.isFolder || !event.kind.bringsContent || event.path.isEmpty) =
      !event.bringsFile := by simp [Event.bringsFile]
  unfold jobOf?
  rw [hnews]
  simp only [Event.Answered, Event.renews_iff, passesForOutput_iff]
  cases event.bringsFile with
  | false => simp
  | true =>
    simp only [Bool.not_true, Bool.false_eq_true, if_false, hf,
      runOn_bind_of_ok (runOn_isOwnOutput hs ht (Path.base event.path) s)]
    cases Path.hasExtension (Path.base event.path) target &&
      !Path.hasExtension (Path.base event.path) source with
    | true => simp
    | false =>
      simp only [Bool.false_eq_true, if_false, not_false_eq_true, and_true, true_and]
      rw [runOn_bind_of_ok (runOn_get s)]
      rfl

variable {σ : Type} (tell : Listener σ)

theorem onEvent_of_not_answered {event : Event} {w : Watching σ}
    (h : ¬ event.Answered source target handler.input w.workspace.volume) :
    onEvent handler tell event w = (.ok (), w) := by
  have hasked := runOn_jobOf?_of_file hs ht hf event w.workspace
  rw [if_neg h] at hasked
  rw [onEvent, runOn_handle_of_none hasked]

theorem exists_onEvent_of_answered {event : Event} {w : Watching σ}
    (h : event.Answered source target handler.input w.workspace.volume) :
    (∃ o s, (recompile handler ⟨handler.input, handler.output⟩).runOn w.workspace = (.ok o, s) ∧
      o.source = handler.input ∧ o.output = handler.output ∧
      onEvent handler tell event w =
        ((tell o (s, w.listener)).1,
          ⟨(tell o (s, w.listener)).2.1, w.outcomes ++ [o], (tell o (s, w.listener)).2.2⟩)) ∨
    ¬ handler.compiler.Stays ∧ ∃ f s, f.leaves = true ∧
      (recompile handler ⟨handler.input, handler.output⟩).runOn w.workspace = (.error f, s) ∧
      onEvent handler tell event w = (.error f, { w with workspace := s }) := by
  have hasked := runOn_jobOf?_of_file hs ht hf event w.workspace
  rw [if_pos h] at hasked
  exact onEvent_of_asked hasked tell

variable {tell}

/-- A run of events records one compilation of the file for each event that is answered. -/
theorem exists_runEvents_of_file (hstays : handler.compiler.Stays) (htell : tell.Calm)
    (run : List (Workspace × Event))
    (start : Watching σ) :
    ∃ finish new, runEvents (onEvent handler tell) run start = (.ok (), finish) ∧
      finish.outcomes = start.outcomes ++ new ∧
      new.length = run.countP (fun step =>
        step.2.Answered source target handler.input step.1.volume) ∧
      ∀ o ∈ new, o.source = handler.input ∧ o.output = handler.output := by
  induction run generalizing start with
  | nil => exact ⟨start, [], rfl, by simp, by simp, by simp⟩
  | cons step run ih =>
    obtain ⟨s, event⟩ := step
    by_cases h : event.Answered source target handler.input s.volume
    · obtain ⟨o, u, _, hsource, houtput, hrun⟩ | ⟨hgoes, _⟩ :=
        exists_onEvent_of_answered hs ht hf tell (w := { start with workspace := s }) h
      swap
      · exact absurd hstays hgoes
      rw [htell] at hrun
      obtain ⟨finish, new, hfinish, houtcomes, hlength, hall⟩ := ih _
      refine ⟨finish, o :: new, by rw [runEvents, hrun]; exact hfinish, ?_, ?_, ?_⟩
      · rw [houtcomes, List.append_assoc, List.singleton_append]
      · rw [List.length_cons, hlength, List.countP_cons_of_pos (by simpa using h)]
      · exact List.forall_mem_cons.2 ⟨⟨hsource, houtput⟩, hall⟩
    · have hrun := onEvent_of_not_answered hs ht hf tell (w := { start with workspace := s }) h
      obtain ⟨finish, new, hfinish, houtcomes, hlength, hall⟩ := ih { start with workspace := s }
      refine ⟨finish, new, by rw [runEvents, hrun]; exact hfinish, houtcomes, ?_, hall⟩
      rw [hlength, List.countP_cons_of_neg (by simpa using h)]

end

/-! ### The watch -/

theorem exists_runOn_watchPath_of_file {profile : Profile} {source target : Text}
    (hs : profile.sourceExtension = some source) (ht : profile.targetExtension = some target)
    {request : Request} {s : Workspace} (hfile : s.volume.isFile request.input = true)
    {choice : Option Compiler} {compiler : Compiler}
    (hchoice : Compile.Uses profile s choice compiler) :
    ∃ watch t, (watchPath request profile choice).runOn s = (.ok watch, t) ∧
      watch.handler = ⟨request.input,
        Compile.singleOutput s.volume request.input request.output target source, false, compiler,
        profile⟩ ∧
      watch.calls = [.schedule (Path.folder (s.volume.absolute request.input)) false, .start] := by
  obtain ⟨content, hstat⟩ : ∃ content, s.volume.stat request.input = .ok (.file content) := by
    unfold Volume.isFile at hfile
    split at hfile
    · next content h => exact ⟨content, h⟩
    · simp at hfile
  have hentry : s.volume.hasEntry request.input = true := by rw [Volume.hasEntry, hstat]; rfl
  have hfolder : s.volume.isFolder request.input = false := by rw [Volume.isFolder, hstat]
  unfold watchPath
  rw [runOn_bind_of_ok (runOn_get s)]
  simp only [hentry, Bool.not_true, Bool.false_eq_true, if_false, pure_bind, hfolder, outputOf]
  cases choice with
  | some c =>
    obtain rfl : c = compiler := hchoice
    simp only
    rw [runOn_bind_of_ok (runOn_need_some ht s), runOn_bind_of_ok (runOn_need_some hs s),
      runOn_bind_of_ok (runOn_watchedFolder hstat), runOn_bind_of_ok (runOn_log _ _ _ s)]
    exact ⟨_, _, rfl, rfl, rfl⟩
  | none =>
    obtain ⟨reference, fromModule, href, hresolve⟩ := hchoice
    obtain ⟨u, hload, hsame⟩ := Compile.exists_runOn_loadCompiler hresolve
    rw [← hsame.1] at hstat
    simp only
    rw [runOn_bind_of_ok (runOn_need_some href s), runOn_bind_of_ok hload,
      runOn_bind_of_ok (runOn_need_some ht u), runOn_bind_of_ok (runOn_need_some hs u),
      runOn_bind_of_ok (runOn_watchedFolder hstat), runOn_bind_of_ok (runOn_log _ _ _ u),
      hsame.1]
    exact ⟨_, _, rfl, rfl, rfl⟩

/-- A single file is watched through its folder. Each event that leaves new content at its path
has it compiled once, and to the one output, unless the last name of the event's path passes for
that of an output; no other event does anything. -/
theorem single_file_recompiled {mode : CheckMode} {given : Value} {table : Table}
    {findings : List Finding} (hcheck : checkSettings mode given = .ok (table, findings))
    {request : Request} {s : Workspace} (hfile : s.volume.isFile request.input = true)
    {choice : Option Compiler} {compiler : Compiler}
    (hchoice : Compile.Uses (Profile.ofTable table) s choice compiler) :
    ∃ source target watch t, (Profile.ofTable table).sourceExtension = some source ∧
      (Profile.ofTable table).targetExtension = some target ∧
      (watchPath request (Profile.ofTable table) choice).runOn s = (.ok watch, t) ∧
      watch.handler = ⟨request.input,
        Compile.singleOutput s.volume request.input request.output target source, false, compiler,
        Profile.ofTable table⟩ ∧
      watch.calls = [.schedule (Path.folder (s.volume.absolute request.input)) false, .start] ∧
      ∀ {σ : Type} (tell : Listener σ),
        (∀ (event : Event) (w : Watching σ),
          event.Renews w.workspace.volume request.input →
          ¬ PassesForOutput source target event.path →
          (∃ o u, (recompile watch.handler ⟨request.input, watch.handler.output⟩).runOn
              w.workspace = (.ok o, u) ∧
            o.source = request.input ∧ o.output = watch.handler.output ∧
            onEvent watch.handler tell event w =
              ((tell o (u, w.listener)).1,
                ⟨(tell o (u, w.listener)).2.1, w.outcomes ++ [o],
                  (tell o (u, w.listener)).2.2⟩)) ∨
          ¬ compiler.Stays ∧ ∃ f u, f.leaves = true ∧
            (recompile watch.handler ⟨request.input, watch.handler.output⟩).runOn
              w.workspace = (.error f, u) ∧
            onEvent watch.handler tell event w = (.error f, { w with workspace := u })) ∧
        (∀ (event : Event) (w : Watching σ),
          ¬ event.Renews w.workspace.volume request.input ∨
            PassesForOutput source target event.path →
          onEvent watch.handler tell event w = (.ok (), w)) ∧
        (compiler.Stays → tell.Calm → ∀ (run : List (Workspace × Event)) (start : Watching σ),
          ∃ finish new, runEvents (onEvent watch.handler tell) run start = (.ok (), finish) ∧
            finish.outcomes = start.outcomes ++ new ∧
            new.length = run.countP (fun step =>
              step.2.Answered source target request.input step.1.volume) ∧
            ∀ o ∈ new, o.source = request.input ∧ o.output = watch.handler.output) := by
  obtain ⟨source, target, hs, ht, _⟩ := (checked_of_checkSettings hcheck).extensions
  obtain ⟨watch, t, hrun, hhandler, hcalls⟩ :=
    exists_runOn_watchPath_of_file hs ht hfile hchoice
  have hinput : watch.handler.input = request.input := by rw [hhandler]
  have hprofile : watch.handler.profile = Profile.ofTable table := by rw [hhandler]
  have hcompiler : watch.handler.compiler = compiler := by rw [hhandler]
  have hf : watch.handler.isFolder = false := by rw [hhandler]
  refine ⟨source, target, watch, t, hs, ht, hrun, hhandler, hcalls, fun tell => ?_⟩
  rw [← hprofile] at hs ht
  rw [← hinput]
  refine ⟨fun event w hnews hname => ?_, fun event w h => ?_, fun hstays htell => ?_⟩
  · rw [← hcompiler]
    exact exists_onEvent_of_answered hs ht hf tell ⟨hnews, hname⟩
  · refine onEvent_of_not_answered hs ht hf tell fun hanswered => ?_
    rcases h with h | h
    · exact h hanswered.1
    · exact hanswered.2 h
  · exact exists_runEvents_of_file hs ht hf (hcompiler ▸ hstays) htell

end Inlay.Watch

namespace Inlay.Watch

open Inlay.Standard Inlay.Action

def oneTemplate : Workspace :=
  .holding [([['r']], .folder), ([['r'], "page.tea.html".toList], .file (Utf8.encode ['x']))]

/-- A file without either extension, brought back under another spelling of its path. -/
theorem single_file_recompiled_of_brought_back :
    ∃ watch t o u,
      (watchPath ⟨"watch", "r/page.tea.html".toList, some "page.php".toList, false⟩
        (Profile.ofTable Setting.defaults) (some .passthrough)).runOn oneTemplate =
          (.ok watch, t) ∧
      watch.calls = [.schedule "/r".toList false, .start] ∧
      o.source = "r/page.tea.html".toList ∧ o.output = "page.php".toList ∧
      onEvent watch.handler remembering
        ⟨.moved, false, "r/page.php".toList, "/x/../r//page.tea.html".toList⟩
        ⟨oneTemplate, [], []⟩ = (.ok (), ⟨u, [o], [o]⟩) := by
  have hcheck : checkSettings .lenient (.table []) = .ok (Setting.defaults, []) := rfl
  have hfile : oneTemplate.volume.isFile
      (Request.mk "watch" "r/page.tea.html".toList (some "page.php".toList) false).input =
        true := by
    cbv
  have hchoice : Compile.Uses (Profile.ofTable Setting.defaults) oneTemplate (some .passthrough)
      .passthrough := rfl
  obtain ⟨source, target, watch, t, hs, ht, hwatch, hhandler, hcalls, hevents⟩ :=
    single_file_recompiled hcheck hfile hchoice
  obtain rfl : ".tea".toList = source := Option.some.inj hs
  obtain rfl : ".php".toList = target := Option.some.inj ht
  obtain ⟨o, u, _, hsource, houtput, hrun⟩ | ⟨hgoes, _⟩ := (hevents remembering).1
    ⟨.moved, false, "r/page.php".toList, "/x/../r//page.tea.html".toList⟩ ⟨oneTemplate, [], []⟩
    ⟨rfl, Or.inr (Or.inr rfl), by decide, by cbv⟩ (by decide)
  swap
  · exact absurd Compiler.stays_passthrough hgoes
  refine ⟨watch, t, o, u, hwatch, by rw [hcalls]; cbv, hsource, ?_, hrun⟩
  rw [houtput, hhandler]
  cbv

/-- A file with the target extension is watched with an output elsewhere, and a change to it is
taken for one to an output. -/
theorem exists_ignored_input_change :
    ∃ (table : Table) (findings : List Finding) (request : Request) (s t : Workspace)
      (watch : Subscription) (event : Event),
      checkSettings .lenient (.table []) = .ok (table, findings) ∧
      s.volume.isFile request.input = true ∧
      (watchPath request (Profile.ofTable table) (some .passthrough)).runOn s = (.ok watch, t) ∧
      watch.handler.output ≠ request.input ∧
      event.Renews s.volume request.input ∧
      onEvent watch.handler remembering event ⟨s, [], []⟩ = (.ok (), ⟨s, [], []⟩) := by
  let s : Workspace :=
    .holding [([['r']], .folder), ([['r'], "page.php".toList], .file (Utf8.encode ['x']))]
  have hs : (Profile.ofTable Setting.defaults).sourceExtension = some ".tea".toList := rfl
  have ht : (Profile.ofTable Setting.defaults).targetExtension = some ".php".toList := rfl
  have hfile : s.volume.isFile
      (Request.mk "watch" "r/page.php".toList (some "out.html".toList) false).input = true := by cbv
  have hchoice : Compile.Uses (Profile.ofTable Setting.defaults) s (some .passthrough)
      .passthrough := rfl
  obtain ⟨watch, t, hwatch, hhandler, _⟩ := exists_runOn_watchPath_of_file hs ht hfile hchoice
  refine ⟨Setting.defaults, [], _, s, t, watch, ⟨.modified, false, "r/page.php".toList, []⟩, rfl,
    hfile, hwatch, ?_, ⟨rfl, Or.inr (Or.inl rfl), by decide, rfl⟩, ?_⟩
  · have houtput : watch.handler.output = "out.html".toList := by rw [hhandler]; cbv
    rw [houtput]
    decide
  · have hprofile : watch.handler.profile = Profile.ofTable Setting.defaults := by rw [hhandler]
    rw [← hprofile] at hs ht
    exact onEvent_of_not_answered hs ht (by rw [hhandler]) remembering fun h => h.2 (by decide)

end Inlay.Watch
