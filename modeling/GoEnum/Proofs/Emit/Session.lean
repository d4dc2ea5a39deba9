import GoEnum.Emit.Output
import GoEnum.Proofs.Except

/-!
One emitter for the methods of many types. What a step adds to the text depends on the level alone,
and every step comes back to the level that it started from; so types do not influence each other,
and a type that fails leaves no trace.
-/

namespace GoEnum.Emit

open Enum

/-- A step that keeps the level, and adds a text that depends on nothing but the level. -/
structure Frames (f : Emitter → Emitter) : Prop where
  level : ∀ e, (f e).level = e.level
  text : ∀ e, (f e).text = e.text ++ (f ⟨"", e.level⟩).text

section

variable {f g : Emitter → Emitter}

theorem frames_id : Frames id := ⟨fun _ => rfl, fun e => by simp⟩

theorem Frames.comp (hf : Frames f) (hg : Frames g) : Frames fun e => g (f e) := by
  refine ⟨fun e => (hg.level _).trans (hf.level e), fun e => ?_⟩
  rw [hg.text (f e), hg.text (f ⟨"", e.level⟩), hf.text e, hf.level, hf.level, String.append_assoc]

theorem Frames.indented (h : Frames f) : Frames fun e => (f e.indent).dedent := by
  refine ⟨fun e => ?_, fun e => h.text e.indent⟩
  change (f e.indent).level - 1 = e.level
  rw [h.level]
  rfl

theorem frames_line (s : String) : Frames (·.line s) :=
  ⟨fun _ => rfl, fun e => by simp [Emitter.line, Emitter.tabs, String.append_assoc]⟩

theorem frames_blank : Frames Emitter.blank :=
  ⟨fun _ => rfl, fun e => by simp [Emitter.blank]⟩

theorem Frames.block (h : Frames f) (header : String) : Frames (·.block header f) :=
  ((frames_line _).comp h.indented).comp (frames_line _)

theorem Frames.method (h : Frames f) (doc receiver signature : String) :
    Frames (·.method doc receiver signature f) :=
  ((frames_line _).comp (h.block _)).comp frames_blank

theorem frames_foldl {step : α → Emitter → Emitter} (h : ∀ x, Frames (step x)) (xs : List α) :
    Frames fun e => xs.foldl (fun e x => step x e) e := by
  induction xs with
  | nil => exact frames_id
  | cons x xs ih => exact (h x).comp ih

mutual

theorem frames_code : ∀ c : Code, Frames (·.code c)
  | .line s => by
    simp only [Emitter.code]
    exact frames_line s
  | .blank => by
    simp only [Emitter.code]
    exact frames_blank
  | .block header body => by
    simp only [Emitter.code]
    exact (frames_codes body).block header
  | .clause label body => by
    simp only [Emitter.code]
    exact (frames_line label).comp (frames_codes body).indented

theorem frames_codes : ∀ cs : List Code, Frames (·.codes cs)
  | [] => by
    simp only [Emitter.codes]
    exact frames_id
  | c :: cs => by
    simp only [Emitter.codes]
    exact (frames_code c).comp (frames_codes cs)

end

end

theorem Method.frames_emit (m : Method) : Frames m.emit :=
  (frames_codes m.body).method m.doc m.receiver m.signature

structure Generator where
  emitter : Emitter
  imports : Imports

namespace Generator

def new : Generator := ⟨.empty, .nothing⟩

def add (g : Generator) (m : Method) : Generator := ⟨m.emit g.emitter, g.imports.union m.imports⟩

def output (g : Generator) : Output := ⟨g.emitter.text, g.imports⟩

def call (config : Config) (p : Package) (type : String) :
    ExceptT GenerateError (StateM Generator) Unit := do
  let c ← liftExcept (contextOf config p type)
  (methods config.families c).forM fun m => modify (·.add m)

/-- The result of a call on a generator, and the generator after it. -/
def run (config : Config) (p : Package) (type : String) (g : Generator) :
    Except GenerateError Unit × Generator := (call config p type).run.run g

def runAll (config : Config) (p : Package) (types : List String) (g : Generator) :
    List (Except GenerateError Unit) × Generator :=
  (types.mapM fun type => (call config p type).run).run g

end Generator

theorem Imports.union_assoc (a b c : Imports) : (a.union b).union c = a.union (b.union c) := by
  simp [Imports.union, Bool.or_assoc]

@[simp] theorem Imports.nothing_union (a : Imports) : Imports.nothing.union a = a := rfl

@[simp] theorem Imports.union_nothing (a : Imports) : a.union .nothing = a := by
  simp [Imports.union, Imports.nothing]

theorem Imports.foldl_union {f : α → Imports} (i : Imports) (xs : List α) :
    xs.foldl (fun i x => i.union (f x)) i =
      i.union (xs.foldl (fun i x => i.union (f x)) .nothing) := by
  induction xs generalizing i with
  | nil => simp
  | cons x xs ih =>
    rw [List.foldl_cons, List.foldl_cons, ih, ih (Imports.nothing.union _), nothing_union,
      union_assoc]

@[simp] theorem Output.empty_append (out : Output) : Output.empty.append out = out := by
  simp [Output.append, Output.empty]

@[simp] theorem Output.append_empty (out : Output) : out.append .empty = out := by
  simp [Output.append, Output.empty]

namespace Generator

variable {config : Config} {p : Package} {type : String} {g : Generator}

theorem foldl_add (h : g.emitter.level = 0) (ms : List Method) :
    (ms.foldl add g).emitter.level = 0 ∧
      (ms.foldl add g).output = g.output.append (.ofMethods ms) := by
  have hsplit : ms.foldl add g =
      ⟨ms.foldl (fun e m => m.emit e) g.emitter,
        ms.foldl (fun i m => i.union m.imports) g.imports⟩ := by
    induction ms generalizing g with
    | nil => rfl
    | cons m ms ih => exact ih (g := g.add m) ((m.frames_emit.level _).trans h)
  have hframes := frames_foldl Method.frames_emit ms
  rw [hsplit]
  refine ⟨(hframes.level _).trans h, ?_⟩
  have htext := hframes.text g.emitter
  rw [h] at htext
  simp only [output, Output.append, Output.ofMethods, Emitter.empty]
  rw [htext, Imports.foldl_union]

theorem run_forM (ms : List Method) (g : Generator) :
    (ms.forM fun m => modify (·.add m) :
      ExceptT GenerateError (StateM Generator) Unit).run.run g = (.ok (), ms.foldl add g) := by
  induction ms generalizing g with
  | nil => rfl
  | cons m ms ih => exact ih (g.add m)

theorem run_of_ok (h : g.emitter.level = 0) (hout : generateType config p type = .ok out) :
    ∃ g', run config p type g = (.ok (), g') ∧ g'.emitter.level = 0 ∧
      g'.output = g.output.append out := by
  obtain ⟨c, hc, hout⟩ := bind_eq_ok.1 hout
  cases hout
  refine ⟨_, ?_, foldl_add h (methods config.families c)⟩
  rw [run, call, hc]
  exact run_forM _ g

theorem run_of_error (he : generateType config p type = .error e) (g : Generator) :
    run config p type g = (.error e, g) := by
  obtain he | ⟨c, -, he⟩ := bind_eq_error.1 he
  · rw [run, call, he]
    rfl
  · cases he

theorem run_of_fst_eq_error (h : (run config p type g).1 = .error e) :
    (run config p type g).2 = g := by
  cases hc : contextOf config p type with
  | error e' =>
    have he : generateType config p type = .error e' := by rw [generateType, hc]; rfl
    rw [run_of_error he]
  | ok c =>
    rw [run, call, hc] at h
    cases (congrArg Prod.fst (run_forM _ g)).symm.trans h

def fresh (config : Config) (p : Package) (type : String) : Except GenerateError Unit × Generator :=
  run config p type .new

theorem generateType_eq (config : Config) (p : Package) (type : String) :
    generateType config p type =
      (fresh config p type).1.map fun _ => (fresh config p type).2.output := by
  cases hout : generateType config p type with
  | error e =>
    rw [fresh, run_of_error hout]
    rfl
  | ok out =>
    obtain ⟨g, hrun, -, houtput⟩ := run_of_ok (g := .new) rfl hout
    rw [fresh, hrun]
    exact congrArg Except.ok (out.empty_append.symm.trans houtput.symm)

/-- An output takes what a fresh generator writes, which is nothing if the type fails. -/
theorem generate_eq (config : Config) (p : Package) (out : Output) (type : String) :
    (out.generate config p type).toOption.getD out =
      out.append (fresh config p type).2.output := by
  rw [Output.generate, generateType_eq]
  cases hfresh : (fresh config p type).1 with
  | error e =>
    have hnew : (fresh config p type).2 = .new := run_of_fst_eq_error hfresh
    rw [hnew]
    exact out.append_empty.symm
  | ok _ => rfl

theorem run_eq (config : Config) (p : Package) (type : String) (h : g.emitter.level = 0) :
    (run config p type g).1 = (fresh config p type).1 ∧
      (run config p type g).2.emitter.level = 0 ∧
      (run config p type g).2.output = g.output.append (fresh config p type).2.output := by
  cases hout : generateType config p type with
  | error e =>
    rw [fresh, run_of_error hout, run_of_error hout]
    exact ⟨rfl, h, g.output.append_empty.symm⟩
  | ok out =>
    obtain ⟨g', hrun, hlevel, houtput⟩ := run_of_ok h hout
    obtain ⟨g₀, hfresh, -, houtput₀⟩ := run_of_ok (g := .new) rfl hout
    rw [fresh, hrun, hfresh, houtput, houtput₀]
    exact ⟨rfl, hlevel, congrArg g.output.append out.empty_append.symm⟩

theorem runAll_cons (config : Config) (p : Package) (type : String) (types : List String)
    (g : Generator) : runAll config p (type :: types) g =
      let first := run config p type g
      let rest := runAll config p types first.2
      (first.1 :: rest.1, rest.2) := by
  rw [runAll, List.mapM_cons]
  rfl

theorem runAll_eq (config : Config) (p : Package) (types : List String)
    (h : g.emitter.level = 0) :
    (runAll config p types g).1 = types.map (fun type => (fresh config p type).1) ∧
      (runAll config p types g).2.output =
        types.foldl (fun out type => out.append (fresh config p type).2.output) g.output := by
  induction types generalizing g with
  | nil => exact ⟨rfl, rfl⟩
  | cons type types ih =>
    obtain ⟨hresult, hlevel, houtput⟩ := run_eq config p type h
    obtain ⟨hresults, houtputs⟩ := ih hlevel
    rw [houtput] at houtputs
    rw [runAll_cons, List.map_cons, List.foldl_cons, ← hresult, ← hresults, ← houtputs]
    exact ⟨rfl, rfl⟩

end Generator

theorem Output.foldl_append (f : α → Output) (out : Output) (xs : List α) :
    xs.foldl (fun out x => out.append (f x)) out =
      ⟨out.body ++ String.join (xs.map fun x => (f x).body),
        xs.foldl (fun i x => i.union (f x).imports) out.imports⟩ := by
  induction xs generalizing out with
  | nil => simp
  | cons x xs ih => rw [List.foldl_cons, ih]; simp [Output.append, String.append_assoc]

/-- Calls on one generator, of which any may fail, do what each does on a fresh one: the results are
the same, the text is the fresh texts one after the other, and the imports are all fresh imports
together. A call that fails leaves any generator as it is. Outputs that are generated apart and then
put together, where a failed type adds nothing, come to the same. -/
theorem calls_apart (config : Config) (p : Package) (types : List String) :
    let fresh := Generator.fresh config p
    let all := Generator.runAll config p types .new
    all.1 = types.map (fun type => (fresh type).1) ∧
      all.2.output.body = String.join (types.map fun type => (fresh type).2.output.body) ∧
      all.2.output.imports =
        types.foldl (fun i type => i.union (fresh type).2.output.imports) .nothing ∧
      (∀ type g e, (Generator.run config p type g).1 = .error e →
        (Generator.run config p type g).2 = g) ∧
      (∀ type, generateType config p type = (fresh type).1.map fun _ => (fresh type).2.output) ∧
      types.foldl (fun out type => (out.generate config p type).toOption.getD out) .empty =
        all.2.output := by
  intro fresh all
  obtain ⟨hresults, houtput⟩ := Generator.runAll_eq (g := .new) config p types rfl
  have hempty : Generator.new.output = .empty := rfl
  rw [hempty, Output.foldl_append] at houtput
  refine ⟨hresults, ?_, congrArg (·.imports) houtput, ?_, Generator.generateType_eq config p, ?_⟩
  · exact (congrArg (·.body) houtput).trans String.empty_append
  · intro type g e h
    exact Generator.run_of_fst_eq_error h
  · rw [houtput, ← Output.foldl_append]
    simp only [Generator.generate_eq]

end GoEnum.Emit
