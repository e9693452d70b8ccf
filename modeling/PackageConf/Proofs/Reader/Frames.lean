import Mathlib
import PackageConf.Reader.Stack
/-!
# The frames of a stack

A stack may be read, pushed to and popped in any order, also behind errors and in the midst of a
file. Each reader that comes onto it opens a *frame*, which is there until it is popped. `Frames`
keeps account of them from outside: it sees what is done and what is answered, and numbers the
frames in the order in which they are opened, but it never looks into the stack.

By this account frames do not disturb each other (`frames_isolated`). What is read while a frame is
active is what its reader says when it is read alone, and nothing that happens above a frame moves
its reader.
-/
namespace PackageConf

/-! ## A reader alone -/

namespace Reader

/-- What a reader says in `n` turns. -/
def results (r : Reader) : Nat → List (Except ConfigError (Option Token))
  | 0 => []
  | n + 1 => r.next.1 :: r.next.2.results n

/-- The reader after `n` turns. -/
def after (r : Reader) : Nat → Reader
  | 0 => r
  | n + 1 => r.next.2.after n

theorem after_succ (r : Reader) (n : Nat) : r.after (n + 1) = (r.after n).next.2 := by
  induction n generalizing r with
  | zero => rfl
  | succ n ih => exact ih r.next.2

theorem results_succ (r : Reader) (n : Nat) :
    r.results (n + 1) = r.results n ++ [(r.after n).next.1] := by
  induction n generalizing r with
  | zero => rfl
  | succ n ih =>
    rw [results, ih r.next.2]
    rfl

end Reader

/-! ## What can be done with a stack -/

/-- One thing that can be done with a stack. -/
inductive Operation where
  | next
  | push (r : Reader)
  | includePath (path : String)
  | pop

inductive Answer where
  | read (result : Except ConfigError (Option Token))
  | pushed
  | included (result : Except ConfigError Unit)
  | popped (resumed : Bool)

/-- The operation goes on with another source. -/
def Answer.opens : Answer → Bool
  | .pushed | .included (.ok _) => true
  | _ => false

/-- The operation goes back to the source that waits. -/
def Answer.resumes : Answer → Bool
  | .popped resumed => resumed
  | _ => false

namespace ReaderStack

def perform (fs : FileSystem) (s : ReaderStack) : Operation → Answer × ReaderStack
  | .next => (.read s.next.1, s.next.2)
  | .push r => (.pushed, s.push r)
  | .includePath path => (.included (s.includePath fs path).1, (s.includePath fs path).2)
  | .pop => (.popped s.pop.1, s.pop.2)

variable {fs : FileSystem} {s : ReaderStack} {path : String}

theorem perform_includePath {source : Source} (h : fs.access path = .ok source) :
    s.perform fs (.includePath path) =
      (.included (.ok ()), s.push { label := path, rest := source }) := by
  rw [perform, includePath_of_ok h]

theorem perform_includePath_of_error {cause : FileError} (h : fs.access path = .error cause) :
    s.perform fs (.includePath path) =
      (.included (.error (.includeFailed s.active.line path cause)), s) := by
  rw [perform, includePath_of_error h]

/-- Leaving a source resumes the one that waits, or there is none and nothing changes. -/
theorem perform_pop_cases (fs : FileSystem) (s : ReaderStack) :
    (∃ s', s.pop = (true, s') ∧ s.perform fs .pop = (.popped true, s')) ∨
      (s.depth = 0 ∧ s.perform fs .pop = (.popped false, s)) := by
  cases hpop : s.pop with
  | mk resumed s' =>
    rw [perform, hpop]
    cases resumed with
    | true => exact .inl ⟨s', rfl, rfl⟩
    | false =>
      obtain ⟨hdepth, rfl⟩ := pop_eq_false_iff.1 hpop
      exact .inr ⟨hdepth, rfl⟩

theorem depth_perform (fs : FileSystem) (s : ReaderStack) (op : Operation) :
    (s.perform fs op).2.depth + (s.perform fs op).1.resumes.toNat =
      s.depth + (s.perform fs op).1.opens.toNat := by
  cases op with
  | next => rfl
  | push r => rfl
  | includePath path =>
    cases hacc : fs.access path with
    | ok source =>
      rw [perform_includePath hacc]
      rfl
    | error cause =>
      rw [perform_includePath_of_error hacc]
      rfl
  | pop =>
    rcases perform_pop_cases fs s with ⟨s', hpop, hperform⟩ | ⟨-, hperform⟩
    · rw [hperform, depth_of_pop hpop]
      rfl
    · rw [hperform]
      rfl

end ReaderStack

/-- A stack with all that was done with it and answered, the latest last. -/
structure Session where
  stack : ReaderStack
  events : List (Operation × Answer) := []

namespace Session

def perform (fs : FileSystem) (s : Session) (op : Operation) : Session where
  stack := (s.stack.perform fs op).2
  events := s.events ++ [(op, (s.stack.perform fs op).1)]

/-- A session that starts with one reader. -/
def run (fs : FileSystem) (primary : Reader) (ops : List Operation) : Session :=
  ops.foldl (perform fs) { stack := { active := primary } }

def opened (s : Session) : Nat := s.events.countP (·.2.opens)

def resumed (s : Session) : Nat := s.events.countP (·.2.resumes)

end Session

/-! ## The account of the frames -/

/-- An account of the frames of a stack. -/
structure Frames where
  /-- The reader that opened each frame, as it was then. -/
  opened : List Reader
  /-- The number of the frame that is active. -/
  active : Nat := 0
  /-- The numbers of the frames that wait, the one to be resumed first in front. -/
  waiting : List Nat := []
  /-- All that was read, with the number of the frame that was active. -/
  reads : List (Nat × Except ConfigError (Option Token)) := []

namespace Frames

def enter (f : Frames) (r : Reader) : Frames :=
  { f with opened := f.opened ++ [r], active := f.opened.length, waiting := f.active :: f.waiting }

def read (f : Frames) (result : Except ConfigError (Option Token)) : Frames :=
  { f with reads := f.reads ++ [(f.active, result)] }

/-- The frame that waited is active again. -/
def resume (f : Frames) : Frames :=
  match f.waiting with
  | [] => f
  | i :: is => { f with active := i, waiting := is }

/-- Take note of an operation and its answer. An included file is read from its beginning. -/
def note (fs : FileSystem) (f : Frames) : Operation × Answer → Frames
  | (.next, .read result) => f.read result
  | (.push r, .pushed) => f.enter r
  | (.includePath path, .included (.ok ())) =>
    match fs.access path with
    | .ok source => f.enter { label := path, rest := source }
    | .error _ => f
  | (.pop, .popped true) => f.resume
  | _ => f

/-- The account of a session that started with one reader. -/
def ofEvents (fs : FileSystem) (primary : Reader) (events : List (Operation × Answer)) : Frames :=
  events.foldl (note fs) { opened := [primary] }

/-- What was read while frame `i` was active, in order. -/
def readsOf (f : Frames) (i : Nat) : List (Except ConfigError (Option Token)) :=
  (f.reads.filter (·.1 = i)).map (·.2)

/-- The reader of frame `i` has come as far as `r`: it was read alone as often as the frame. -/
def IsAt (f : Frames) (i : Nat) (r : Reader) : Prop :=
  ∃ r₀, f.opened[i]? = some r₀ ∧ r = r₀.after (f.readsOf i).length

structure Describes (f : Frames) (s : ReaderStack) : Prop where
  readers : List.Forall₂ f.IsAt (f.active :: f.waiting) (s.active :: s.suspended)
  distinct : (f.active :: f.waiting).Nodup
  numbered : ∀ x ∈ f.reads, x.1 < f.opened.length
  alone : ∀ i r, f.opened[i]? = some r → f.readsOf i = r.results (f.readsOf i).length

theorem IsAt.lt {f : Frames} {i : Nat} {r : Reader} (h : f.IsAt i r) : i < f.opened.length := by
  obtain ⟨r₀, h₀, -⟩ := h
  exact (List.getElem?_eq_some_iff.1 h₀).1

theorem readsOf_read (f : Frames) (result : Except ConfigError (Option Token)) (i : Nat) :
    (f.read result).readsOf i = f.readsOf i ++ if f.active = i then [result] else [] := by
  by_cases h : f.active = i <;> simp [readsOf, read, h]

theorem IsAt.read {f : Frames} {i : Nat} {r : Reader} (h : f.IsAt i r) (hi : f.active ≠ i)
    (result : Except ConfigError (Option Token)) : (f.read result).IsAt i r := by
  obtain ⟨r₀, h₀, hr⟩ := h
  refine ⟨r₀, h₀, ?_⟩
  rw [readsOf_read, if_neg hi, List.append_nil]
  exact hr

theorem IsAt.enter {f : Frames} {i : Nat} {r : Reader} (h : f.IsAt i r) (q : Reader) :
    (f.enter q).IsAt i r := by
  obtain ⟨r₀, h₀, hr⟩ := h
  exact ⟨r₀, List.getElem?_append_left (List.getElem?_eq_some_iff.1 h₀).1 ▸ h₀, hr⟩

namespace Describes

variable {f : Frames} {s : ReaderStack}

theorem start (primary : Reader) :
    Describes { opened := [primary] } { active := primary } where
  readers := .cons ⟨primary, rfl, rfl⟩ .nil
  distinct := by simp
  numbered := by simp
  alone i r _ := rfl

/-- The active frame is read by its own reader. -/
theorem read (h : f.Describes s) : (f.read s.next.1).Describes s.next.2 := by
  obtain ⟨hactive, hwaiting⟩ := List.forall₂_cons.1 h.readers
  obtain ⟨r₀, h₀, hr⟩ := hactive
  constructor
  · refine .cons ⟨r₀, h₀, ?_⟩ ?_
    · have hturn : (f.readsOf f.active ++ [s.next.1]).length = (f.readsOf f.active).length + 1 := by
        simp
      have hreads : (f.read s.next.1).readsOf (f.read s.next.1).active =
          f.readsOf f.active ++ [s.next.1] := by
        rw [readsOf_read]
        simp [Frames.read]
      rw [hreads, hturn, Reader.after_succ, ← hr]
      rfl
    · have hother : ∀ i ∈ f.waiting, f.active ≠ i := fun i hi hne =>
        (List.nodup_cons.1 h.distinct).1 (hne ▸ hi)
      have hboth := (List.forall₂_and_left _ _).2 ⟨hother, hwaiting⟩
      exact hboth.imp fun i r hi => hi.2.read hi.1 _
  · exact h.distinct
  · have hlt : f.active < f.opened.length := IsAt.lt ⟨r₀, h₀, hr⟩
    intro x hx
    rcases List.mem_append.1 hx with hx | hx
    · exact h.numbered x hx
    · rw [List.mem_singleton.1 hx]
      exact hlt
  · intro i r hi
    rw [readsOf_read]
    by_cases hia : f.active = i
    · subst hia
      obtain rfl : r₀ = r := Option.some.inj (h₀.symm.trans hi)
      have hturn : (f.readsOf f.active ++ [s.next.1]).length = (f.readsOf f.active).length + 1 := by
        simp
      rw [if_pos rfl, hturn, Reader.results_succ, ← h.alone _ _ h₀, ← hr]
      rfl
    · rw [if_neg hia, List.append_nil]
      exact h.alone i r hi

/-- A new frame starts with its reader, and has not been read. -/
theorem enter (h : f.Describes s) (r : Reader) : (f.enter r).Describes (s.push r) := by
  have hnew : f.readsOf f.opened.length = [] := by
    have hnone : ∀ x ∈ f.reads, ¬ x.1 = f.opened.length := fun x hx =>
      Nat.ne_of_lt (h.numbered x hx)
    simpa [readsOf] using hnone
  constructor
  · refine .cons ⟨r, by simp [Frames.enter], ?_⟩ (h.readers.imp fun i q hi => hi.enter r)
    have hreads : (f.enter r).readsOf (f.enter r).active = [] := hnew
    rw [hreads]
    rfl
  · refine List.nodup_cons.2 ⟨fun hmem => ?_, h.distinct⟩
    have hlt := ((List.forall₂_and_left _ _).1 (h.readers.imp fun i q hi => ⟨hi.lt, hi⟩)).1
    exact Nat.lt_irrefl _ (hlt _ hmem)
  · intro x hx
    have hlt := h.numbered x hx
    simp only [Frames.enter, List.length_append, List.length_singleton]
    omega
  · intro i q hi
    by_cases hlt : i < f.opened.length
    · refine h.alone i q ?_
      simpa [Frames.enter, List.getElem?_append_left hlt] using hi
    · obtain rfl : i = f.opened.length := by
        have hle := (List.getElem?_eq_some_iff.1 hi).1
        simp only [Frames.enter, List.length_append, List.length_singleton] at hle
        omega
      have hreads : (f.enter r).readsOf f.opened.length = [] := hnew
      rw [hreads]
      rfl

/-- The frame that is resumed is where it was left. -/
theorem resume (h : f.Describes s) {s' : ReaderStack} (hpop : s.pop = (true, s')) :
    f.resume.Describes s' := by
  obtain ⟨-, hwaiting⟩ := List.forall₂_cons.1 h.readers
  rw [ReaderStack.pop_eq_true_iff.1 hpop] at hwaiting
  obtain ⟨i, is, hi, his, hf⟩ := List.forall₂_cons_right_iff.1 hwaiting
  have hresume : f.resume = { f with active := i, waiting := is } := by rw [Frames.resume, hf]
  rw [hresume]
  have hdistinct := (List.nodup_cons.1 h.distinct).2
  rw [hf] at hdistinct
  exact ⟨.cons hi his, hdistinct, h.numbered, h.alone⟩

/-- Whatever is done, the account stays that of the stack. -/
theorem perform (fs : FileSystem) (h : f.Describes s) (op : Operation) :
    (f.note fs (op, (s.perform fs op).1)).Describes (s.perform fs op).2 := by
  cases op with
  | next => exact h.read
  | push r => exact h.enter r
  | includePath path =>
    cases hacc : fs.access path with
    | ok source =>
      rw [ReaderStack.perform_includePath hacc, note, hacc]
      exact h.enter _
    | error cause =>
      rw [ReaderStack.perform_includePath_of_error hacc]
      exact h
  | pop =>
    rcases s.perform_pop_cases fs with ⟨s', hpop, hperform⟩ | ⟨-, hperform⟩
    · rw [hperform]
      exact h.resume hpop
    · rw [hperform]
      exact h

end Describes
end Frames

/-! ## Whole sessions -/

namespace Session

theorem run_concat (fs : FileSystem) (primary : Reader) (ops : List Operation) (op : Operation) :
    run fs primary (ops ++ [op]) = (run fs primary ops).perform fs op := by
  simp [run]

theorem describes_run (fs : FileSystem) (primary : Reader) (ops : List Operation) :
    (Frames.ofEvents fs primary (run fs primary ops).events).Describes
      (run fs primary ops).stack := by
  induction ops using List.reverseRecOn with
  | nil => exact .start primary
  | append_singleton ops op ih =>
    rw [run_concat, perform, Frames.ofEvents, List.foldl_append]
    exact ih.perform fs op

theorem depth_run (fs : FileSystem) (primary : Reader) (ops : List Operation) :
    (run fs primary ops).stack.depth + (run fs primary ops).resumed =
      (run fs primary ops).opened := by
  induction ops using List.reverseRecOn with
  | nil => rfl
  | append_singleton ops op ih =>
    have hstep := (run fs primary ops).stack.depth_perform fs op
    rw [run_concat]
    simp only [opened, resumed, perform, List.countP_append, List.countP_singleton] at ih ⊢
    generalize (run fs primary ops).stack.perform fs op = p at hstep ⊢
    cases ho : p.1.opens <;> cases hr : p.1.resumes <;> simp [ho, hr] at hstep ⊢ <;> omega

end Session

/-- **Frames do not disturb each other.** Whatever is done with a stack, what was read while a frame
was active is what the reader of the frame says when it is read alone, in as many turns; and the
readers on the stack, with their lines, are where those readers then are. As many readers wait as
sources were opened and not yet left, nothing can be left exactly if none waits, and what cannot be
done changes nothing; a failed include names the line of the active reader. -/
theorem frames_isolated (fs : FileSystem) (primary : Reader) (ops : List Operation) :
    let s := Session.run fs primary ops
    let f := Frames.ofEvents fs primary s.events
    (∀ i r, f.opened[i]? = some r → f.readsOf i = r.results (f.readsOf i).length) ∧
    List.Forall₂ f.IsAt (f.active :: f.waiting) (s.stack.active :: s.stack.suspended) ∧
    s.stack.depth + s.resumed = s.opened ∧
    ((s.stack.perform fs .pop).1 = .popped false ↔ s.stack.depth = 0) ∧
    (s.stack.depth = 0 → (s.stack.perform fs .pop).2 = s.stack) ∧
    ∀ path e, (s.stack.perform fs (.includePath path)).1 = .included (.error e) →
      (s.stack.perform fs (.includePath path)).2 = s.stack ∧
        ∃ cause, fs.access path = .error cause ∧
          e = .includeFailed s.stack.active.line path cause := by
  intro s f
  have haccount : f.Describes s.stack := Session.describes_run fs primary ops
  refine ⟨haccount.alone, haccount.readers, Session.depth_run fs primary ops, ?_, ?_, ?_⟩
  · rcases s.stack.perform_pop_cases fs with ⟨s', hpop, hperform⟩ | ⟨hdepth, hperform⟩
    · simp [hperform, ReaderStack.depth_of_pop hpop]
    · simp [hperform, hdepth]
  · intro hdepth
    rcases s.stack.perform_pop_cases fs with ⟨s', hpop, -⟩ | ⟨-, hperform⟩
    · simp [ReaderStack.depth_of_pop hpop] at hdepth
    · rw [hperform]
  · intro path e he
    cases hacc : fs.access path with
    | ok source => simp [ReaderStack.perform_includePath hacc] at he
    | error cause =>
      rw [ReaderStack.perform_includePath_of_error hacc] at he ⊢
      obtain rfl := Except.error.inj (Answer.included.inj he)
      exact ⟨rfl, cause, rfl, rfl⟩

/-- Two lines, of which the second is read when other sources have come and gone. -/
def pausedReader : Reader := .ofBytes "main" (Text.encode "a\nb\n".toList)

/-- A line that is in error, and another one. -/
def brokenReader : Reader := .ofBytes "m" (Text.encode "[x\ny\n".toList)

/-- A source is left behind its first line, and another one is not there. -/
def pausedOperations : List Operation :=
  [.next, .push brokenReader, .next, .pop, .includePath "n", .next]

/-- The first frame has its two lines and the second one its error. -/
theorem frames_isolated_paused :
    let s := Session.run (.ofList []) pausedReader pausedOperations
    let f := Frames.ofEvents (.ofList []) pausedReader s.events
    f.opened = [pausedReader, brokenReader] ∧
    f.readsOf 0 = pausedReader.results 2 ∧
    f.readsOf 0 = [.ok (some (.key "a" [])), .ok (some (.key "b" []))] ∧
    f.readsOf 1 = brokenReader.results 1 ∧ f.readsOf 1 = [.error (.missingBracket 1)] ∧
    (s.stack.perform (.ofList []) .pop).1 = .popped false := by
  intro s f
  obtain ⟨halone, -, -, hpop, -⟩ := frames_isolated (.ofList []) pausedReader pausedOperations
  have hopened : f.opened = [pausedReader, brokenReader] := by cbv
  have hfirst : f.readsOf 0 = [.ok (some (.key "a" [])), .ok (some (.key "b" []))] := by cbv
  have hsecond : f.readsOf 1 = [.error (.missingBracket 1)] := by cbv
  have hdepth : s.stack.depth = 0 := by cbv
  refine ⟨hopened, ?_, hfirst, ?_, hsecond, hpop.2 hdepth⟩
  · have hone := halone 0 pausedReader (by rw [hopened]; rfl)
    rwa [hfirst] at hone
  · have hone := halone 1 brokenReader (by rw [hopened]; rfl)
    rwa [hsecond] at hone

end PackageConf
