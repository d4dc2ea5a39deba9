import GoEnum.Command.Outcome
import GoEnum.Proofs.Command.Regeneration
import GoEnum.Proofs.Disk.Contents
import GoEnum.Proofs.Layout.Format
import GoEnum.Proofs.Package.Load

namespace GoEnum.Command

open Disk Layout Package

section

variable {σ : Type}

/-- A run has written one text in one place: a file, laid out, of the package that was loaded. -/
structure Written (fs : FileSystem (StateM σ)) (v : View σ π) (r : Request) (before after : σ)
    (p : Package) (text : String) (place : π) : Prop where
  loaded : (load fs r.origin r.tags).run.run before = (.ok p, before)
  rendered : r.render p = .ok text
  leads : v.leads before r.outputPath place
  replaced : v.Replaced place text before after
  reads : (fs.read r.outputPath).run after = (.ok text.toUTF8, after)
  formatted : isFormatted text = .ok true
  package : (∀ arg ∈ r.args, '\n' ∉ arg.toList) →
    ∃ file, Parse.parseSource text = .ok file ∧ file.package.node = p.name

inductive Ran (fs : FileSystem (StateM σ)) (r : Request) (before : σ) :
    Except Failure Unit → σ → Prop
  | unloaded {e after} : (load fs r.origin r.tags).run.run before = (.error e, after) →
      Ran fs r before (.error (.loading e)) after
  | unrendered {p failure after} : (load fs r.origin r.tags).run.run before = (.ok p, after) →
      r.render p = .error failure → Ran fs r before (.error failure) after
  | unwritten {p text loaded e after} :
      (load fs r.origin r.tags).run.run before = (.ok p, loaded) → r.render p = .ok text →
      (fs.write r.outputPath text).run loaded = (.error e, after) →
      Ran fs r before (.error (.writing r.outputPath e)) after
  | written {p text loaded after} :
      (load fs r.origin r.tags).run.run before = (.ok p, loaded) → r.render p = .ok text →
      (fs.write r.outputPath text).run loaded = (.ok (), after) → Ran fs r before (.ok ()) after

variable {π : Type} {fs : FileSystem (StateM σ)} {v : View σ π} {r : Request} {before after : σ}
  {result : Except Failure Unit} {failure : Failure}

theorem Ran.run_eq (h : Ran fs r before result after) :
    (r.run fs).run.run before = (result, after) := by
  unfold Request.run
  cases h with
  | unloaded hload => exact run_bind_of_error (run_adapt hload)
  | unrendered hload hrender =>
    rw [run_bind_of_ok (run_adapt hload)]
    exact run_bind_of_error ((run_mk _ _).trans (by rw [hrender]))
  | unwritten hload hrender hwrite =>
    rw [run_bind_of_ok (run_adapt hload), hrender, run_bind_of_ok (run_mk _ _),
      run_bind_of_ok (run_lift hwrite)]
    rfl
  | written hload hrender hwrite =>
    rw [run_bind_of_ok (run_adapt hload), hrender, run_bind_of_ok (run_mk _ _),
      run_bind_of_ok (run_lift hwrite)]
    rfl

theorem exists_ran (fs : FileSystem (StateM σ)) (r : Request) (before : σ) :
    ∃ result after, Ran fs r before result after := by
  cases hload : (load fs r.origin r.tags).run.run before with
  | mk loading loaded =>
    cases loading with
    | error e => exact ⟨_, _, .unloaded hload⟩
    | ok p =>
      cases hrender : r.render p with
      | error failure => exact ⟨_, _, .unrendered hload hrender⟩
      | ok text =>
        cases hwrite : (fs.write r.outputPath text).run loaded with
        | mk writing after =>
          cases writing with
          | error e => exact ⟨_, _, .unwritten hload hrender hwrite⟩
          | ok u => exact ⟨_, _, .written hload hrender hwrite⟩

theorem run_iff : (r.run fs).run.run before = (result, after) ↔ Ran fs r before result after := by
  refine ⟨fun h => ?_, Ran.run_eq⟩
  obtain ⟨result', after', hran⟩ := exists_ran fs r before
  cases h.symm.trans hran.run_eq
  exact hran

theorem unchanged_of_run_error (h : fs.Atomic v)
    (hrun : (r.run fs).run.run before = (.error failure, after)) : after = before := by
  have hlooks := looks_load h r.origin r.tags before
  cases run_iff.1 hrun with
  | unloaded hload =>
    rw [hload] at hlooks
    exact hlooks.1
  | unrendered hload _ =>
    rw [hload] at hlooks
    exact hlooks.1
  | unwritten hload _ hwrite =>
    rw [hload] at hlooks
    exact (h.write_error hwrite).trans hlooks.1

theorem looks_originOf (h : fs.Atomic v) (patterns : List Path) (tags : List String) :
    Looks (originOf fs patterns tags) fun _ => True := by
  have hfiles : Looks (if tags.isEmpty then return .files patterns else throw .tagsWithFiles :
      ExceptT Failure (StateM σ) Origin) fun _ => True := by
    split
    · exact looks_pure trivial
    · exact looks_throw _
  match patterns with
  | [] => exact looks_pure trivial
  | [p] =>
    apply (h.still_isDirectory p).looks.bind
    intro directory _
    cases directory with
    | true => exact looks_pure trivial
    | false => exact hfiles
  | _ :: _ :: _ => exact hfiles

theorem looks_requestOf (h : fs.Atomic v) (o : Options) (args : List String) :
    Looks (requestOf fs o args) fun _ => True := by
  have hrequest : ∀ tags, Looks (do
      let origin ← originOf fs o.patterns tags
      return ⟨o.types, origin, tags, o.output, o.config, args⟩ :
      ExceptT Failure (StateM σ) Request) fun _ => True :=
    fun tags => (looks_originOf h o.patterns tags).bind fun _ _ => looks_pure trivial
  unfold requestOf
  split
  · exact (looks_throw (P := fun _ => True) _).bind fun _ _ => hrequest _
  · exact hrequest _

theorem unchanged_of_execute_error (h : fs.Atomic v) {o : Options} {args : List String}
    (hrun : (execute fs o args).run.run before = (.error failure, after)) : after = before := by
  have hlooks := looks_requestOf h o args before
  unfold execute at hrun
  cases hrequest : (requestOf fs o args).run.run before with
  | mk request asked =>
    rw [hrequest] at hlooks
    cases request with
    | error e =>
      rw [run_bind_of_error hrequest] at hrun
      cases hrun
      exact hlooks.1
    | ok r =>
      rw [run_bind_of_ok hrequest] at hrun
      exact (unchanged_of_run_error h hrun).trans hlooks.1

/-- Whatever reads the arguments, a run that is not done has changed nothing. -/
theorem unchanged_of_run_ne_done (h : fs.Atomic v) {parse : List String → Except Stop Options}
    {args : List String} {outcome : Outcome}
    (hrun : (run parse fs args).run before = (outcome, after)) (hdone : outcome ≠ .done) :
    after = before := by
  unfold run at hrun
  cases hparse : parse args with
  | error s =>
    rw [hparse] at hrun
    cases hrun
    rfl
  | ok o =>
    rw [hparse] at hrun
    dsimp only at hrun
    rw [StateT.run_bind] at hrun
    cases hexecute : (execute fs o args).run.run before with
    | mk result later =>
      rw [hexecute] at hrun
      cases result with
      | ok u =>
        cases hrun
        exact absurd rfl hdone
      | error failure =>
        cases hrun
        exact unchanged_of_execute_error h hexecute

theorem isFormatted_of_render (h : r.render p = .ok text) : isFormatted text = .ok true := by
  obtain ⟨out, -, hformat⟩ := render_eq_ok.1 h
  exact isFormatted_of_format hformat

/-- A run that fails leaves the files as they were, whatever it fails of: the package, any of the
types, the layout or the file to be written. A run that succeeds changes nothing but this file. -/
theorem run_all_or_nothing (h : fs.Atomic v) (r : Request) (before : σ) :
    (∀ failure after, (r.run fs).run.run before = (.error failure, after) → after = before) ∧
      ∀ after, (r.run fs).run.run before = (.ok (), after) →
        ∃ p text place, Written fs v r before after p text place := by
  constructor
  · intro failure after hrun
    exact unchanged_of_run_error h hrun
  · intro after hrun
    have hlooks := looks_load h r.origin r.tags before
    cases run_iff.1 hrun with
    | @written p text loaded after hload hrender hwrite =>
      rw [hload] at hlooks
      obtain rfl : loaded = before := hlooks.1
      obtain ⟨sources, hsources⟩ := hlooks.2 p rfl
      obtain ⟨place, hleads, hreplaced, hreads⟩ := h.write_ok hwrite
      refine ⟨p, text, place, hload, hrender, hleads, hreplaced, hreads,
        isFormatted_of_render hrender, fun hargs => ?_⟩
      obtain ⟨-, file, -, hfile, hpackage, -⟩ := exists_file_of_render hsources hargs hrender
      exact ⟨file, file?_eq_some.1 hfile, hpackage⟩

end

def levelContents : Contents where
  files := [(["p", "level.go"], levelSource.text.toUTF8)]
  dirs := []

theorem load_level : (load Contents.fileSystem levelRequest.origin levelRequest.tags).run.run
    levelContents = (ofSources levelRequest.origin.dir [levelSource], levelContents) := by
  have hlist : (listFiles Contents.fileSystem ⟨"p"⟩).run.run levelContents =
      (.ok [levelSource.path], levelContents) := by
    rw [← List.mergeSort_singleton (r := Path.le) levelSource.path]
    rfl
  have hread : ([levelSource.path].mapM (readFor Contents.fileSystem (.host []))).run.run
      levelContents = (.ok [some levelSource], levelContents) := rfl
  have hkept : [some levelSource].filterMap id = [levelSource] := rfl
  refine (run_bind_of_ok hlist).trans ((run_bind_of_ok hread).trans ?_)
  rw [hkept]
  refine (run_bind_of_ok (a := [levelSource]) (t := levelContents) rfl).trans ?_
  dsimp only
  cases ofSources levelRequest.origin.dir [levelSource] <;> rfl

theorem run_all_or_nothing_level :
    let request := { levelRequest with types := ["Level", "Missing"] }
    (∃ after, (request.run Contents.fileSystem).run.run levelContents =
      (.error (.generating "Missing" (.discovery "Missing")), after) ∧ after = levelContents) ∧
    ∃ after, (levelRequest.run Contents.fileSystem).run.run levelContents = (.ok (), after) ∧
      ∃ p text place,
        Written Contents.fileSystem Contents.view levelRequest levelContents after p text
          place := by
  intro request
  obtain ⟨p, text, hp, -, hrender⟩ := render_level
  have hload := load_level.trans (congrArg (·, levelContents) hp)
  have hmissing : ∃ p, ofSources ⟨"p"⟩ [levelSource] = .ok p ∧
      request.render p = .error (.generating "Missing" (.discovery "Missing")) := by
    decide +kernel
  constructor
  · obtain ⟨p', hp', hfailure⟩ := hmissing
    obtain rfl := Except.ok.inj (hp.symm.trans hp')
    have hrun : (request.run Contents.fileSystem).run.run levelContents =
        (.error (.generating "Missing" (.discovery "Missing")), levelContents) :=
      run_iff.2 (.unrendered hload hfailure)
    exact ⟨_, hrun, (run_all_or_nothing Contents.atomic_fileSystem request _).1 _ _ hrun⟩
  · have hwrite : (Contents.fileSystem.write levelRequest.outputPath text).run levelContents =
        (.ok (), levelContents.store ["p", "level.gen.go"] text.toUTF8) := by
      exact Contents.run_write_of_ok rfl
    have hrun : (levelRequest.run Contents.fileSystem).run.run levelContents =
        (.ok (), levelContents.store ["p", "level.gen.go"] text.toUTF8) :=
      run_iff.2 (.written hload hrender hwrite)
    exact ⟨_, hrun, (run_all_or_nothing Contents.atomic_fileSystem levelRequest _).2 _ hrun⟩

end GoEnum.Command
