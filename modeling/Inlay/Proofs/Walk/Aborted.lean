import Inlay.Command.Clean
import Inlay.Proofs.Compile.Batch
import Inlay.Proofs.Walk.Spending

/-!
# Walks that end early

A walk fails exactly if it reaches a folder that it cannot list. The commands then end with the
words of that failure before they have written or removed anything (`aborted_by_listing`).
-/

namespace Inlay.Walk

variable [Host]

open Inlay.Action

/-- A command that has done nothing but say why. -/
def Aborts (a : Action Result) (s : Workspace) (f : Failure) : Prop :=
  ∃ r t, a.runOn s = (.ok r, t) ∧ r.ok = false ∧ r.outcomes = [] ∧ r.error = f.message ∧
    t.volume = s.volume

/-- The walk fails in this way from every workspace with the same volume and the same faults. -/
def FailsFrom (s : Workspace) (a : Action (List Path)) (folder : Path) (detail : Option String) :
    Prop :=
  ∀ t : Workspace, t.volume = s.volume → t.faults = s.faults → ∃ u : Workspace,
    u.volume = s.volume ∧ a.runOn t = (.error (.listing folder detail), u)

/-- No output is asked for, or one in a folder that exists. -/
def Usable (v : Volume) (output : Option Path) : Prop :=
  ∀ path, output = some path → path ≠ [] → v.isFolder path = true

variable {s : Workspace} {policy : StatPolicy} {retries : Int} {root : Path} {profile : Profile}

theorem files_fails_iff (hv : s.volume.Sound) :
    (∃ folder detail u, (files policy retries root).runOn s =
        (.error (.listing folder detail), u)) ↔
      ∃ way e, Reached s policy retries root way ∧
        listing s (Path.descend root way) = .error e := by
  rcases files_gives hv policy retries root with ⟨found, hfound, hrun⟩ | ⟨way, e, hr, he, hrun⟩
  · obtain ⟨u, _, hrun⟩ := hrun s rfl rfl
    constructor
    · rintro ⟨folder, detail, u, herror⟩
      rw [hrun] at herror
      simp at herror
    · rintro ⟨way, e, hr, he⟩
      obtain ⟨names, hl⟩ := hfound.listed way hr ⟨[], List.mem_singleton_self _, List.nil_prefix⟩
      rw [hl] at he
      simp at he
  · obtain ⟨u, _, hrun⟩ := hrun s rfl rfl
    exact ⟨fun _ => ⟨way, e, hr, he⟩, fun _ => ⟨_, _, u, hrun⟩⟩

omit [Host] in
theorem stat_of_isFolder {v : Volume} {path : Path} (h : v.isFolder path = true) :
    v.stat path = .ok .folder := by
  unfold Volume.isFolder at h
  split at h
  · next hs => exact hs
  · simp at h

omit [Host] in
theorem exists_runOn_outputRoot {request : Request} {t : Workspace}
    (h : Usable t.volume request.output) :
    ∃ out, (Compile.outputRoot request.input request.output).runOn t = (.ok out, t) := by
  unfold Compile.outputRoot
  rw [runOn_bind_of_ok (runOn_get t)]
  simp only
  split
  · exact ⟨_, rfl⟩
  · next path hpath =>
    obtain ⟨hsome, hne⟩ := Option.filter_eq_some_iff.1 hpath
    have hfolder := h path hsome (by simpa using hne)
    have hentry : t.volume.hasEntry path = true := by
      rw [Volume.hasEntry, stat_of_isFolder hfolder]
      rfl
    simp only [hentry, hfolder, Bool.not_true, Bool.false_eq_true, if_false]
    exact ⟨_, rfl⟩

variable {folder : Path} {detail : Option String}

theorem aborts_compileFolder {request : Request} (compiler : Compiler)
    (hout : Usable s.volume request.output)
    (hwalk : FailsFrom s (Compile.walkFiles profile request.input) folder detail) {t : Workspace}
    (hv : t.volume = s.volume) (hf : t.faults = s.faults) :
    ∃ r u, (Compile.compileFolder request profile compiler).runOn t = (.ok r, u) ∧ r.ok = false ∧
      r.outcomes = [] ∧ r.error = (Failure.listing folder detail).message ∧
      u.volume = s.volume := by
  obtain ⟨out, hroot⟩ := exists_runOn_outputRoot (t := t) (by rw [hv]; exact hout)
  obtain ⟨u, hu, hrun⟩ := hwalk (t.logged ⟨Level.info, Compile.logger,
    s!"Compiling directory: {str request.input} -> {str out}"⟩) (by rw [t.logged_volume, hv])
    (by rw [t.logged_faults, hf])
  unfold Compile.compileFolder
  rw [runOn_bind_of_ok hroot, runOn_bind_of_ok (runOn_log _ _ _ t),
    runOn_bind_of_ok (by rw [runOn_attempt, hrun])]
  simp only
  rw [runOn_bind_of_ok (runOn_log _ _ _ u)]
  exact ⟨_, _, rfl, rfl, rfl, rfl, by rw [Workspace.logged_volume, hu]⟩

theorem aborts_compilePath {request : Request} {choice : Option Compiler} {compiler : Compiler}
    (huses : Compile.Uses profile s choice compiler)
    (hfolder : s.volume.isFolder request.input = true) (hout : Usable s.volume request.output)
    (hwalk : FailsFrom s (Compile.walkFiles profile request.input) folder detail) :
    Aborts (Compile.compilePath request profile choice) s (.listing folder detail) := by
  have hfile : s.volume.isFile request.input = false := by
    rw [Volume.isFile, stat_of_isFolder hfolder]
  obtain ⟨t, hv, hf, hrun⟩ := Compile.exists_runOn_compilePath_eq huses hfile hfolder
  obtain ⟨r, u, hfolder, hrest⟩ := aborts_compileFolder compiler hout hwalk hv hf
  exact ⟨r, u, hrun.trans hfolder, hrest⟩

theorem aborts_cleanPath {request : Request} (hfolder : s.volume.isFolder request.input = true)
    (hwalk : FailsFrom s (Compile.walkFiles profile request.input) folder detail) :
    Aborts (Clean.cleanPath request profile) s (.listing folder detail) := by
  obtain ⟨u, hu, hrun⟩ := hwalk (s.logged ⟨Level.info, Clean.logger,
    s!"Cleaning generated files under: {str request.input}"⟩) (s.logged_volume _)
    (s.logged_faults _)
  unfold Aborts Clean.cleanPath
  rw [runOn_bind_of_ok (runOn_get s)]
  simp only [hfolder, Bool.not_true, Bool.false_eq_true, if_false]
  rw [runOn_bind_of_ok (runOn_log _ _ _ s), runOn_bind_of_ok (by rw [runOn_attempt, hrun])]
  simp only
  rw [runOn_bind_of_ok (runOn_log _ _ _ u)]
  exact ⟨_, _, rfl, rfl, rfl, rfl, by rw [Workspace.logged_volume, hu]⟩

/-- A walk fails exactly if a folder that it reaches cannot be listed, and names such a folder; the
commands on the same root then give the words of the failure, and nothing has happened. -/
theorem aborted_by_listing (hv : s.volume.Sound) (policy : StatPolicy) (retries : Int)
    (root : Path) :
    ((∃ folder detail u, (files policy retries root).runOn s =
        (.error (.listing folder detail), u)) ↔
      ∃ way e, Reached s policy retries root way ∧
        listing s (Path.descend root way) = .error e) ∧
    ∀ f u, (files policy retries root).runOn s = (.error f, u) →
      u.volume = s.volume ∧
      (∃ way e, Reached s policy retries root way ∧
        listing s (Path.descend root way) = .error e ∧
        f = .listing (Path.descend root way) (some e.message)) ∧
      ∀ (profile : Profile) (request : Request), profile.statPolicy = some policy.name.toList →
        profile.statRetries = some retries → request.input = root →
        s.volume.isFolder root = true →
        (∀ choice compiler, Compile.Uses profile s choice compiler →
          Usable s.volume request.output →
          Aborts (Compile.compilePath request profile choice) s f) ∧
        Aborts (Clean.cleanPath request profile) s f := by
  refine ⟨files_fails_iff hv, fun f u hrun => ?_⟩
  rcases files_gives hv policy retries root with ⟨_, _, hok⟩ | ⟨way, e, hr, he, herror⟩
  · obtain ⟨t, _, hok⟩ := hok s rfl rfl
    rw [hok] at hrun
    simp at hrun
  · obtain ⟨t, ht, hfails⟩ := herror s rfl rfl
    obtain ⟨hf, rfl⟩ := Prod.mk.inj (hfails.symm.trans hrun)
    obtain rfl := Except.error.inj hf
    refine ⟨ht, ⟨way, e, hr, he, rfl⟩, ?_⟩
    rintro profile request hpolicy hretries rfl hfolder
    have hwalk : FailsFrom s (Compile.walkFiles profile request.input)
        (Path.descend request.input way) (some e.message) := fun t hvt hft => by
      rw [runOn_walkFiles hpolicy hretries]
      exact herror t hvt hft
    exact ⟨fun _ _ huses hout => aborts_compilePath huses hfolder hout hwalk,
      aborts_cleanPath hfolder hwalk⟩

end Inlay.Walk

namespace Inlay.Walk

open Inlay.Standard

/-- A folder below the root that cannot be listed, beside a file that could be compiled. -/
def locked : Workspace :=
  { Workspace.holding
      [(["r".toList], .folder), (["r".toList, "a.tea".toList], .file []),
        (["r".toList, "sub".toList], .folder)] with
    faults := [⟨.list, "r/sub".toList, .denied, none, 0⟩] }

theorem aborted_by_listing_of_locked :
    (∃ r t, (Compile.compilePath ⟨"compile", "r".toList, none, false⟩
        (Profile.ofTable Setting.defaults) (some .passthrough)).runOn locked = (.ok r, t) ∧
      r.ok = false ∧ r.outcomes = [] ∧ t.volume = locked.volume) ∧
    ∃ r t, (Clean.cleanPath ⟨"clean", "r".toList, none, false⟩
        (Profile.ofTable Setting.defaults)).runOn locked = (.ok r, t) ∧
      r.ok = false ∧ r.outcomes = [] ∧ t.volume = locked.volume := by
  obtain ⟨hiff, hcommands⟩ := aborted_by_listing (s := locked) (by decide) .skip 2 "r".toList
  have hreached : Reached locked .skip 2 "r".toList ["sub".toList] := by
    refine reached_nil.concat ?_ ⟨?_, by cbv⟩
    · have hlist : namesIn locked "r".toList = ["a.tea".toList, "sub".toList] := by cbv
      show _ ∈ namesIn locked "r".toList
      rw [hlist]
      decide
    · have hstat : locked.volume.stat "r/sub".toList = .ok .folder := by cbv
      have hfails : failedReadings locked "r/sub".toList = 0 := by
        rw [failedReadings, hstat]
        rfl
      show failedReadings locked "r/sub".toList < _
      rw [hfails]
      exact ENat.natCast_lt_natCast.2 (by decide)
  have hlisting : listing locked (Path.descend "r".toList ["sub".toList]) =
      .error (.of .denied "r/sub".toList) := by cbv
  obtain ⟨folder, detail, u, hrun⟩ := hiff.2 ⟨_, _, hreached, hlisting⟩
  obtain ⟨_, _, hcommand⟩ := hcommands _ u hrun
  obtain ⟨hcompile, _⟩ := hcommand (Profile.ofTable Setting.defaults)
    ⟨"compile", "r".toList, none, false⟩ rfl rfl rfl (by cbv)
  obtain ⟨_, hclean⟩ := hcommand (Profile.ofTable Setting.defaults)
    ⟨"clean", "r".toList, none, false⟩ rfl rfl rfl (by cbv)
  obtain ⟨r, t, hr, hok, hnone, _, ht⟩ := hcompile (some .passthrough) .passthrough rfl
    fun path hpath => by simp at hpath
  obtain ⟨r', t', hr', hok', hnone', _, ht'⟩ := hclean
  exact ⟨⟨r, t, hr, hok, hnone, ht⟩, ⟨r', t', hr', hok', hnone', ht'⟩⟩

end Inlay.Walk
