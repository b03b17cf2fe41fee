import Mathlib.Logic.Relation
import MarkupCatalog.Proofs.PathSteps
import MarkupCatalog.Proofs.Reports

/-!
# Workers

Files may be worked on at the same time.  A worker reads a file, adds the size of its text to a sum
that all workers share, and then extracts it; the steps of different workers come in any order.
However they come, the work ends, and the report on the results is the one on the files in their
order.
-/

namespace MarkupCatalog

/-! ## 1. Steps -/

/-- How far the work on a file has come. -/
inductive Stage where
  | waiting
  | loaded (text : String)
  /-- The size of the text is in the sum. -/
  | counted (text : String)
  | done (result : Except Failure Catalog)

namespace Stage

/-- A step of the work on a file, and what it adds to the sum. -/
inductive Next (fs : FileSystem) (f : Formatter) (p : Path) : Stage → UInt64 → Stage → Prop
  | load {text} (read : fs.readText p = .ok text) : Next fs f p waiting 0 (loaded text)
  | refuse {e} (read : fs.readText p = .error e) :
      Next fs f p waiting 0 (done (.error (.fileAccess e)))
  | count {text} : Next fs f p (loaded text) text.utf8ByteSize.toUInt64 (counted text)
  | extract {text} : Next fs f p (counted text) 0 (done (Catalog.ofSource f p text))

def result? : Stage → Option (Except Failure Catalog)
  | done result => some result
  | _ => none

/-- The number of steps up to the result, at most. -/
def distance : Stage → Nat
  | waiting => 3
  | loaded _ => 2
  | counted _ => 1
  | done _ => 0

end Stage

/-- Files that are worked on, each with its stage, and the sum of sizes so far. -/
structure Pool where
  bytes : UInt64
  jobs : List (Path × Stage)

namespace Pool

def start (files : List Path) : Pool := { bytes := 0, jobs := files.map fun p => (p, .waiting) }

/-- Some worker takes a step. -/
inductive Step (fs : FileSystem) (f : Formatter) : Pool → Pool → Prop
  | work {bytes n : UInt64} {before after : List (Path × Stage)} {p : Path} {s s' : Stage}
      (next : s.Next fs f p n s') :
      Step fs f ⟨bytes, before ++ (p, s) :: after⟩ ⟨bytes + n, before ++ (p, s') :: after⟩

/-- The pool comes about when workers take steps on files. -/
def Reached (fs : FileSystem) (f : Formatter) (files : List Path) (pool : Pool) : Prop :=
  Relation.ReflTransGen (Step fs f) (start files) pool

/-- The number of steps that are left, at most. -/
def distance (pool : Pool) : Nat := (pool.jobs.map fun j => j.2.distance).sum

/-- The results in the order of the files, once there are all. -/
def results? : List (Path × Stage) → Option (List (Except Failure Catalog))
  | [] => some []
  | (_, s) :: jobs => s.result?.bind fun r => (results? jobs).map (r :: ·)

end Pool

/-- The report with the result for one more file. -/
def Report.count (r : Report) : Except Failure Catalog → Report
  | .ok c => { r with document := r.document.add c, processed := r.processed + 1 }
  | .error _ => { r with failed := r.failed + 1 }

/-- The report on the results, once there are all. -/
def Pool.report? (pool : Pool) : Option Report :=
  (results? pool.jobs).map fun results =>
    results.foldl Report.count { Report.empty with bytes := pool.bytes }

/-! ## 2. What a step keeps -/

section Invariant

variable (fs : FileSystem) (f : Formatter)

/-- What a worker knows of a file is true. -/
def Stage.Holds (p : Path) : Stage → Prop
  | waiting => True
  | loaded text | counted text => fs.readText p = .ok text
  | done result => result = Catalog.ofFile fs f p

/-- What a file has added to the sum. -/
def Stage.share (p : Path) : Stage → UInt64
  | waiting | loaded _ => 0
  | counted _ | done _ => Report.sizeOf fs p

namespace Stage

variable {fs f} {p : Path} {s s' : Stage} {n : UInt64}

theorem Next.holds (h : s.Next fs f p n s') (hs : s.Holds fs f p) : s'.Holds fs f p := by
  cases h with
  | load read => exact read
  | refuse read =>
    show Except.error _ = Catalog.ofFile fs f p
    rw [Catalog.ofFile, read]
  | count => exact hs
  | @extract text =>
    have hread : fs.readText p = .ok text := hs
    show _ = Catalog.ofFile fs f p
    rw [Catalog.ofFile, hread]

theorem Next.share (h : s.Next fs f p n s') (hs : s.Holds fs f p) :
    s'.share fs p = s.share fs p + n := by
  cases h with
  | load read => rfl
  | refuse read =>
    show Report.sizeOf fs p = 0
    rw [Report.sizeOf, read]
  | @count text =>
    have hread : fs.readText p = .ok text := hs
    show Report.sizeOf fs p = 0 + _
    rw [Report.sizeOf, hread, UInt64.zero_add]
  | extract => exact (UInt64.add_zero _).symm

theorem Next.distance (h : s.Next fs f p n s') : s'.distance < s.distance := by
  cases h with
  | load => exact Nat.lt_succ_self 2
  | refuse => exact Nat.zero_lt_succ 2
  | count => exact Nat.lt_succ_self 1
  | extract => exact Nat.lt_succ_self 0

theorem exists_next (fs : FileSystem) (f : Formatter) (p : Path) (h : s.result? = none) :
    ∃ n s', s.Next fs f p n s' := by
  cases s with
  | waiting =>
    cases hread : fs.readText p with
    | ok text => exact ⟨_, _, .load hread⟩
    | error e => exact ⟨_, _, .refuse hread⟩
  | loaded text => exact ⟨_, _, .count⟩
  | counted text => exact ⟨_, _, .extract⟩
  | done result => cases h

end Stage

namespace Pool

/-- What is true of a pool at any time of the work on files. -/
structure Invariant (files : List Path) (pool : Pool) : Prop where
  files : pool.jobs.map Prod.fst = files
  holds : ∀ j ∈ pool.jobs, j.2.Holds fs f j.1
  bytes : pool.bytes = (pool.jobs.map fun j => j.2.share fs j.1).sum

theorem invariant_start (files : List Path) : Invariant fs f files (start files) where
  files := by
    rw [start, List.map_map]
    exact List.map_id files
  holds := by
    intro j hj
    obtain ⟨p, -, rfl⟩ := List.mem_map.mp hj
    exact trivial
  bytes := by
    induction files with
    | nil => rfl
    | cons p files ih => exact ih.trans (UInt64.zero_add _).symm

variable {fs f} {files : List Path} {pool pool' : Pool}

theorem Invariant.step (h : Invariant fs f files pool) (hstep : Step fs f pool pool') :
    Invariant fs f files pool' := by
  obtain @⟨bytes, n, before, after, p, s, s', hnext⟩ := hstep
  have hjob : s.Holds fs f p := h.holds (p, s) (List.mem_append_right _ List.mem_cons_self)
  constructor
  case files =>
    rw [← h.files, List.map_append, List.map_append]
    rfl
  case holds =>
    intro j hj
    rcases List.mem_append.mp hj with hj | hj
    · exact h.holds j (List.mem_append_left _ hj)
    rcases List.mem_cons.mp hj with rfl | hj
    · exact hnext.holds hjob
    · exact h.holds j (List.mem_append_right _ (List.mem_cons_of_mem _ hj))
  case bytes =>
    -- the step adds to the sum what it adds to the share of its file
    have hbytes := h.bytes
    simp only [List.map_append, List.map_cons, List.sum_append, List.sum_cons] at hbytes ⊢
    rw [hbytes, hnext.share hjob]
    ac_rfl

theorem Reached.invariant (h : Reached fs f files pool) : Invariant fs f files pool := by
  induction h with
  | refl => exact invariant_start fs f files
  | tail _ hstep ih => exact ih.step hstep

theorem Step.distance (h : Step fs f pool pool') : pool'.distance < pool.distance := by
  obtain ⟨hnext⟩ := h
  have hjob := hnext.distance
  simp only [Pool.distance, List.map_append, List.map_cons, List.sum_append, List.sum_cons]
  omega

/-- Workers do not go on for ever. -/
theorem wellFounded_step (fs : FileSystem) (f : Formatter) :
    WellFounded fun pool' pool : Pool => Step fs f pool pool' :=
  Subrelation.wf Step.distance (measure distance).wf

/-! ## 3. The end of the work -/

/-- Where no worker can take a step, every file has its result. -/
theorem Invariant.done (h : Invariant fs f files pool) (hend : ¬ ∃ pool', Step fs f pool pool') :
    ∀ j ∈ pool.jobs, j.2 = .done (Catalog.ofFile fs f j.1) := by
  rintro ⟨p, s⟩ hj
  have hholds := h.holds _ hj
  cases hresult : s.result? with
  | none =>
    -- the work on this file could go on
    obtain ⟨n, s', hnext⟩ := Stage.exists_next fs f p hresult
    obtain ⟨before, after, hjobs⟩ := List.append_of_mem hj
    obtain ⟨bytes, jobs⟩ := pool
    obtain rfl : jobs = _ := hjobs
    exact absurd ⟨_, .work hnext⟩ hend
  | some result =>
    cases s with
    | done result' => exact congrArg Stage.done hholds
    | _ => cases hresult

theorem results?_of_done {jobs : List (Path × Stage)} {result : Path → Except Failure Catalog}
    (h : ∀ j ∈ jobs, j.2 = .done (result j.1)) :
    results? jobs = some ((jobs.map Prod.fst).map result) := by
  induction jobs with
  | nil => rfl
  | cons j jobs ih =>
    obtain ⟨p, s⟩ := j
    obtain rfl : s = .done (result p) := h _ List.mem_cons_self
    rw [results?, ih fun j hj => h j (List.mem_cons_of_mem _ hj)]
    rfl

end Pool

namespace Report

theorem foldl_count (b : UInt64) (r : Report) (files : List Path) :
    (files.map (Catalog.ofFile fs f)).foldl count { r with bytes := b } =
      { files.foldl (push fs f) r with bytes := b } := by
  induction files generalizing r with
  | nil => rfl
  | cons p files ih =>
    have hcount : count { r with bytes := b } (Catalog.ofFile fs f p) =
        { push fs f r p with bytes := b } := by
      unfold push
      cases Catalog.ofFile fs f p <;> rfl
    rw [List.map_cons, List.foldl_cons, hcount, ih]
    rfl

end Report

variable {fs f} in
theorem Pool.Invariant.report? {files : List Path} {pool : Pool} (h : Invariant fs f files pool)
    (hend : ¬ ∃ pool', Step fs f pool pool') : pool.report? = some (Report.ofFiles fs f files) := by
  have hdone := h.done hend
  have hshares : pool.jobs.map (fun j => j.2.share fs j.1) = files.map (Report.sizeOf fs) := by
    rw [← h.files, List.map_map]
    apply List.map_congr_left
    intro j hj
    rw [hdone j hj]
    rfl
  have hbytes : pool.bytes = (Report.ofFiles fs f files).bytes := by
    rw [h.bytes, hshares, Report.bytes_ofFiles]
  unfold Pool.report?
  rw [results?_of_done hdone, h.files, Option.map_some, Report.foldl_count, hbytes]
  rfl

end Invariant

/-- Whatever the order in which workers take steps, they come to an end, with the report on the
files in their order. This report accounts for every file, and the reports on two lists make up the
report on both together. -/
theorem Pool.report?_of_reached (fs : FileSystem) (f : Formatter) (files : List Path) :
    (WellFounded fun pool' pool : Pool => Step fs f pool pool') ∧
      (∀ pool, Reached fs f files pool → (¬ ∃ pool', Step fs f pool pool') →
        pool.report? = some (Report.ofFiles fs f files)) ∧
      (Report.ofFiles fs f files).Accounts fs f files ∧
      ∀ files' : List Path,
        Report.ofFiles fs f (files ++ files') =
          Report.ofFiles fs f files ++ Report.ofFiles fs f files' :=
  ⟨wellFounded_step fs f, fun _ hreached hend => hreached.invariant.report? hend,
    Report.accounts_ofFiles fs f files, Report.ofFiles_append fs f files⟩

/-- An empty file, and nothing else. -/
def oneFile : FileSystem := ⟨[("a.ts", .file .empty)]⟩

theorem readText_oneFile : oneFile.readText ⟨"/a.ts"⟩ = .ok "" := by
  have hcomponents : Path.components ⟨"/a.ts"⟩ = [.root, .name "a.ts"] := by decide
  unfold FileSystem.readText FileSystem.read FileSystem.node? FileSystem.target FileSystem.locate
  rw [hcomponents, FileSystem.follow_root, FileSystem.follow_name_file (by decide) rfl]
  rfl

theorem readText_missing : oneFile.readText ⟨"/b.ts"⟩ = .error .notFound := by
  have hcomponents : Path.components ⟨"/b.ts"⟩ = [.root, .name "b.ts"] := by decide
  unfold FileSystem.readText FileSystem.read FileSystem.node? FileSystem.target FileSystem.locate
  rw [hcomponents, FileSystem.follow_root, FileSystem.follow_name_absent (by decide) rfl]
  rfl

/-- The second file can be through before the first one is counted. -/
theorem Pool.exists_overtaken {fs : FileSystem} (f : Formatter) {a b : Path} {text : String}
    {e : FileFault} (ha : fs.readText a = .ok text) (hb : fs.readText b = .error e) :
    ∃ pool, Reached fs f [a, b] pool ∧ ¬ ∃ pool', Step fs f pool pool' := by
  let refused : Stage := .done (.error (.fileAccess e))
  have hload : Step fs f (start [a, b]) _ :=
    @Step.work fs f 0 _ [] [(b, .waiting)] a _ _ (.load ha)
  have hrefuse : Step fs f _ _ :=
    @Step.work fs f (0 + 0) _ [(a, .loaded text)] [] b _ _ (.refuse hb)
  have hcount : Step fs f _ _ :=
    @Step.work fs f (0 + 0 + 0) _ [] [(b, refused)] a (.loaded text) _ .count
  have hextract : Step fs f _ _ :=
    @Step.work fs f (0 + 0 + 0 + text.utf8ByteSize.toUInt64) _ [] [(b, refused)] a (.counted text) _
      .extract
  refine ⟨_, (((Relation.ReflTransGen.refl.tail hload).tail hrefuse).tail hcount).tail hextract, ?_⟩
  -- no step is left to take
  rintro ⟨pool', hstep⟩
  exact Nat.not_lt_zero _ hstep.distance

theorem Pool.report?_of_reached_overtaken :
    let f : Formatter := .ofDetail .simple .simple
    let files : List Path := [⟨"/a.ts"⟩, ⟨"/b.ts"⟩]
    ∃ pool, Reached oneFile f files pool ∧ (¬ ∃ pool', Step oneFile f pool pool') ∧
      pool.report? = some (Report.ofFiles oneFile f files) := by
  intro f files
  obtain ⟨pool, hreached, hend⟩ := exists_overtaken f readText_oneFile readText_missing
  exact ⟨pool, hreached, hend, (report?_of_reached oneFile f files).2.1 pool hreached hend⟩

end MarkupCatalog
