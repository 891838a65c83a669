import Mathlib

/-!
# Disk usage of the data directory

`sample` walks every subdirectory of the data root and sets one gauge for each. The walk keeps
a stack of directories still to be opened, charges every directory and file its blocks, leaves
symbolic links alone, and counts what it cannot read and goes on.

A gauge is the usage read off the tree, whatever order the stack takes. A file is charged once
for each of its names, so a gauge may overstate what is there only by hard links, and a scan
that counts no error reports all of it.

## Main definitions

* `Directory`, `DirEntry` — a file tree, with what cannot be read marked in it
* `walk`, `sample` — the scan of the source
* `Directory.usage` — what a scan can see, by recursion on the tree
* `Directory.onDisk` — what is there, a file with several names once

## Main results

* `sample_reports_usage`
-/

namespace MempoolObserver

/-- What a path leads to: its own blocks, whether its metadata and its entries can be read, and
the entries. -/
structure Listing (α : Type) where
  blocks : ℕ
  statable : Bool
  readable : Bool
  entries : List α

/-- What is not a directory. Hard links are names of one inode. -/
structure File where
  inode : ℕ
  blocks : ℕ
  deriving DecidableEq, Repr

/-- An entry of a directory, described without following links. -/
inductive DirEntry where
  /-- It is there, and reading it or its metadata fails. -/
  | unreadable (entry : DirEntry)
  | symlink
  | file (file : File)
  /-- A directory; the name is missing where it is not valid UTF-8. -/
  | dir (name : Option String) (listing : Listing DirEntry)

abbrev Directory := Listing DirEntry

/-- The unit of `st_blocks`. -/
def blockSize : ℕ := 512

/-- The local state of `walk`, with the errors counted so far. The stack has its top first. -/
structure Walk where
  pending : List Directory
  bytes : ℕ
  errors : ℕ

namespace Walk

def countError (w : Walk) : Walk := { w with errors := w.errors + 1 }

def charge (w : Walk) (blocks : ℕ) : Walk := { w with bytes := w.bytes + blocks * blockSize }

/-- One turn of the loop over the entries of a directory. -/
def visit (w : Walk) : DirEntry → Walk
  | .unreadable _ => w.countError
  | .symlink => w
  | .dir _ listing => { w with pending := listing :: w.pending }
  | .file file => w.charge file.blocks

/-- The loop body for a directory taken off the stack. -/
def expand (w : Walk) (dir : Directory) : Walk :=
  let charged := if dir.statable then w.charge dir.blocks else w.countError
  if dir.readable then dir.entries.foldl visit charged else charged.countError

end Walk

/-- What to add up over the part of a tree that a walk gets to see. -/
structure Meter where
  opening : ℕ
  charge : ℕ → ℕ
  error : ℕ

namespace Meter

def openings : Meter := ⟨1, fun _ => 0, 0⟩

def bytes : Meter := ⟨0, fun blocks => blocks * blockSize, 0⟩

def errors : Meter := ⟨0, fun _ => 0, 1⟩

mutual

def total (m : Meter) : DirEntry → ℕ
  | .unreadable _ => m.error
  | .symlink => 0
  | .file file => m.charge file.blocks
  | .dir _ ⟨blocks, statable, readable, entries⟩ =>
    m.opening + (if statable then m.charge blocks else m.error) +
      if readable then m.totalIn entries else m.error

def totalIn (m : Meter) : List DirEntry → ℕ
  | [] => 0
  | entry :: entries => m.total entry + m.totalIn entries

end

def ofDirectory (m : Meter) (dir : Directory) : ℕ :=
  m.opening + (if dir.statable then m.charge dir.blocks else m.error) +
    if dir.readable then m.totalIn dir.entries else m.error

theorem total_dir (m : Meter) (name : Option String) (dir : Directory) :
    m.total (.dir name dir) = m.ofDirectory dir := by
  rw [total, ofDirectory]

def ofStack (m : Meter) (pending : List Directory) : ℕ := (pending.map m.ofDirectory).sum

end Meter

/-- The walk keeps `count` as what the meter adds up. -/
structure Meter.Reads (m : Meter) (count : Walk → ℕ) : Prop where
  pending : ∀ w pending, count { w with pending := pending } = count w
  charge : ∀ w blocks, count (w.charge blocks) = count w + m.charge blocks
  error : ∀ w, count w.countError = count w + m.error

namespace Meter.Reads

variable {m : Meter} {count : Walk → ℕ}

theorem visit (reads : m.Reads count) (w : Walk) (entry : DirEntry) :
    count (w.visit entry) + m.ofStack (w.visit entry).pending =
      count w + m.ofStack w.pending + m.total entry := by
  cases entry with
  | unreadable _ =>
    have counted := reads.error w
    simp only [Walk.visit, Walk.countError, total] at counted ⊢
    omega
  | symlink => rfl
  | file file =>
    have charged := reads.charge w file.blocks
    simp only [Walk.visit, Walk.charge, total] at charged ⊢
    omega
  | dir name listing =>
    have kept := reads.pending w (listing :: w.pending)
    rw [total_dir]
    simp only [Walk.visit, ofStack, List.map_cons, List.sum_cons] at kept ⊢
    omega

theorem visits (reads : m.Reads count) (w : Walk) (entries : List DirEntry) :
    count (entries.foldl Walk.visit w) + m.ofStack (entries.foldl Walk.visit w).pending =
      count w + m.ofStack w.pending + m.totalIn entries := by
  induction entries generalizing w with
  | nil => rfl
  | cons entry entries ih =>
    rw [List.foldl_cons, ih, reads.visit, totalIn, Nat.add_assoc]

/-- Opening a directory pays its own part and puts the directories in it on the stack. -/
theorem expand (reads : m.Reads count) (w : Walk) (dir : Directory) :
    count (w.expand dir) + m.ofStack (w.expand dir).pending + m.opening =
      count w + m.ofStack w.pending + m.ofDirectory dir := by
  have charged : ∃ next : Walk, next.pending = w.pending ∧
      count next = count w + (if dir.statable then m.charge dir.blocks else m.error) ∧
      w.expand dir = if dir.readable then dir.entries.foldl Walk.visit next else
        next.countError := by
    refine ⟨_, ?_, ?_, rfl⟩
    · split <;> rfl
    · split
      · exact reads.charge w dir.blocks
      · exact reads.error w
  obtain ⟨next, kept, paid, expanded⟩ := charged
  rw [expanded, ofDirectory]
  by_cases readable : dir.readable = true
  · have visited := reads.visits next dir.entries
    rw [if_pos readable, if_pos readable]
    rw [kept] at visited
    omega
  · have failed := reads.error next
    rw [if_neg readable, if_neg readable]
    change count next.countError + m.ofStack next.pending + m.opening = _
    rw [kept]
    omega

end Meter.Reads

namespace Walk

theorem reads_openings : Meter.openings.Reads fun _ => 0 where
  pending _ _ := rfl
  charge _ _ := rfl
  error _ := rfl

theorem reads_bytes : Meter.bytes.Reads bytes where
  pending _ _ := rfl
  charge _ _ := rfl
  error _ := rfl

theorem reads_errors : Meter.errors.Reads errors where
  pending _ _ := rfl
  charge _ _ := rfl
  error _ := rfl

/-- The loop of `walk`: directories are opened until the stack is empty. -/
def loop : Walk → Walk
  | ⟨[], bytes, errors⟩ => ⟨[], bytes, errors⟩
  | ⟨dir :: pending, bytes, errors⟩ => loop (expand ⟨pending, bytes, errors⟩ dir)
termination_by w => Meter.openings.ofStack w.pending
decreasing_by
  have fewer := reads_openings.expand ⟨pending, bytes, errors⟩ dir
  simp only [Meter.ofStack, List.map_cons, List.sum_cons, Meter.openings] at fewer ⊢
  omega

end Walk

/-- Sums block usage under `root`, with the errors counted on the way. A root that cannot be
opened gives no sum. -/
def walk (root : Directory) : Option ℕ × ℕ :=
  if root.readable then
    let walked := Walk.loop ⟨[root], 0, 0⟩
    (some walked.bytes, walked.errors)
  else (none, 1)

/-- What one scan reports: the gauges it sets, in order, and the errors it counts. -/
structure DiskSample where
  gauges : List (String × ℕ)
  errors : ℕ

namespace DiskSample

/-- One turn of the loop over the entries of the data root. -/
def visit (scan : DiskSample) : DirEntry → DiskSample
  | .unreadable _ => { scan with errors := scan.errors + 1 }
  | .symlink => scan
  | .file _ => scan
  | .dir none _ => scan
  | .dir (some name) listing =>
    match walk listing with
    | (none, errors) => { scan with errors := scan.errors + errors }
    | (some bytes, errors) =>
      { gauges := scan.gauges ++ [(name, bytes)], errors := scan.errors + errors }

end DiskSample

/-- One scan of the data root; it reports nothing when the root cannot be read. -/
def sample (root : Directory) : Option DiskSample :=
  if root.readable then some (root.entries.foldl DiskSample.visit ⟨[], 0⟩) else none

/-- When the stack is empty, all that was on it has been added up. -/
theorem Meter.Reads.loop {m : Meter} {count : Walk → ℕ} (reads : m.Reads count)
    (still : m.opening = 0) (w : Walk) : count w.loop = count w + m.ofStack w.pending := by
  induction w using Walk.loop.induct with
  | case1 bytes errors =>
    rw [Walk.loop]
    rfl
  | case2 dir pending bytes errors ih =>
    have expanded := reads.expand ⟨pending, bytes, errors⟩ dir
    have same := reads.pending ⟨pending, bytes, errors⟩ (dir :: pending)
    rw [Walk.loop, ih]
    simp only [ofStack, List.map_cons, List.sum_cons, still] at expanded same ⊢
    omega

/-- What a scan can see of a directory, by recursion on the tree. -/
def Directory.usage (dir : Directory) : ℕ := Meter.bytes.ofDirectory dir

/-- How often a scan fails to read something below a directory. -/
def Directory.failures (dir : Directory) : ℕ := Meter.errors.ofDirectory dir

theorem walk_eq (root : Directory) :
    walk root = if root.readable then (some root.usage, root.failures) else (none, 1) := by
  have bytes := Walk.reads_bytes.loop rfl ⟨[root], 0, 0⟩
  have errors := Walk.reads_errors.loop rfl ⟨[root], 0, 0⟩
  simp only [Meter.ofStack, List.map_cons, List.map_nil, List.sum_cons, List.sum_nil, zero_add,
    add_zero] at bytes errors
  rw [walk]
  dsimp only
  rw [bytes, errors, Directory.usage, Directory.failures]

mutual

/-- The blocks of the directories there are, readable or not. -/
def DirEntry.folders : DirEntry → ℕ
  | .unreadable entry => entry.folders
  | .symlink => 0
  | .file _ => 0
  | .dir _ ⟨blocks, _, _, entries⟩ => blocks + foldersIn entries

def foldersIn : List DirEntry → ℕ
  | [] => 0
  | entry :: entries => entry.folders + foldersIn entries

end

mutual

/-- The files there are, readable or not, one for each name. -/
def DirEntry.files : DirEntry → List File
  | .unreadable entry => entry.files
  | .symlink => []
  | .file file => [file]
  | .dir _ ⟨_, _, _, entries⟩ => filesIn entries

def filesIn : List DirEntry → List File
  | [] => []
  | entry :: entries => entry.files ++ filesIn entries

end

/-- The blocks of the files in a list, each as often as it is listed. -/
def blocksOf (files : List File) : ℕ := (files.map File.blocks).sum

/-- The size of what an entry leads to, name by name. -/
def DirEntry.named (entry : DirEntry) : ℕ := (entry.folders + blocksOf entry.files) * blockSize

theorem blocksOf_append (first second : List File) :
    blocksOf (first ++ second) = blocksOf first + blocksOf second := by
  rw [blocksOf, List.map_append, List.sum_append]
  rfl

mutual

theorem total_le_named (entry : DirEntry) : Meter.bytes.total entry ≤ entry.named := by
  cases entry with
  | unreadable _ => exact Nat.zero_le _
  | symlink => exact le_rfl
  | file _ => simp [Meter.total, Meter.bytes, DirEntry.named, DirEntry.folders, DirEntry.files,
      blocksOf]
  | dir _ listing =>
    obtain ⟨blocks, statable, readable, entries⟩ := listing
    have below := totalIn_le_named entries
    simp only [Meter.total, Meter.bytes, DirEntry.named, DirEntry.folders, DirEntry.files,
      blockSize] at below ⊢
    split_ifs <;> omega

theorem totalIn_le_named (entries : List DirEntry) :
    Meter.bytes.totalIn entries ≤ (foldersIn entries + blocksOf (filesIn entries)) * blockSize := by
  cases entries with
  | nil => exact le_rfl
  | cons entry entries =>
    have first := total_le_named entry
    have rest := totalIn_le_named entries
    rw [Meter.totalIn, foldersIn, filesIn, blocksOf_append]
    simp only [DirEntry.named, blockSize] at first rest ⊢
    omega

end

mutual

/-- Where nothing fails, the scan sees every name. -/
theorem total_eq_named (entry : DirEntry) (clean : Meter.errors.total entry = 0) :
    Meter.bytes.total entry = entry.named := by
  cases entry with
  | unreadable _ => cases clean
  | symlink => rfl
  | file _ => simp [Meter.total, Meter.bytes, DirEntry.named, DirEntry.folders, DirEntry.files,
      blocksOf]
  | dir _ listing =>
    obtain ⟨blocks, statable, readable, entries⟩ := listing
    have below := totalIn_eq_named entries
    simp only [Meter.total, Meter.bytes, Meter.errors, DirEntry.named, DirEntry.folders,
      DirEntry.files, blockSize] at clean below ⊢
    cases statable <;> cases readable <;> simp_all
    omega

theorem totalIn_eq_named (entries : List DirEntry) (clean : Meter.errors.totalIn entries = 0) :
    Meter.bytes.totalIn entries = (foldersIn entries + blocksOf (filesIn entries)) * blockSize := by
  cases entries with
  | nil => rfl
  | cons entry entries =>
    obtain ⟨clear, clears⟩ := Nat.add_eq_zero_iff.mp clean
    have first := total_eq_named entry clear
    have rest := totalIn_eq_named entries clears
    rw [Meter.totalIn, foldersIn, filesIn, blocksOf_append]
    simp only [DirEntry.named, blockSize] at first rest ⊢
    omega

end

/-- A subdirectory that can be opened and named, with its size. -/
def reported (size : Directory → ℕ) : DirEntry → Option (String × ℕ)
  | .dir (some name) listing => if listing.readable then some (name, size listing) else none
  | _ => none

/-- The errors that an entry of the root adds to the count. -/
def failuresAt : DirEntry → ℕ
  | .unreadable _ => 1
  | .dir (some _) listing => if listing.readable then Directory.failures listing else 1
  | _ => 0

namespace DiskSample

theorem visit_eq (scan : DiskSample) (entry : DirEntry) :
    scan.visit entry = ⟨scan.gauges ++ (reported Directory.usage entry).toList,
      scan.errors + failuresAt entry⟩ := by
  cases entry with
  | dir name listing =>
    cases name with
    | none => simp [visit, reported, failuresAt]
    | some name =>
      rw [visit, walk_eq, reported, failuresAt]
      by_cases readable : listing.readable = true
      · simp [readable]
      · simp [readable]
  | _ => simp [visit, reported, failuresAt]

theorem foldl_visit (scan : DiskSample) (entries : List DirEntry) :
    entries.foldl visit scan = ⟨scan.gauges ++ entries.filterMap (reported Directory.usage),
      scan.errors + (entries.map failuresAt).sum⟩ := by
  induction entries generalizing scan with
  | nil => simp
  | cons entry entries ih =>
    rw [List.foldl_cons, ih, visit_eq, List.filterMap_cons, List.map_cons, List.sum_cons]
    cases shown : reported Directory.usage entry <;> simp [Nat.add_assoc]

end DiskSample

/-- The files below a directory, one for each name. -/
def Directory.files (dir : Directory) : List File := filesIn dir.entries

/-- The size of all that can be named below a directory, its own blocks included. -/
def Directory.named (dir : Directory) : ℕ := DirEntry.named (.dir none dir)

/-- What is on disk below a directory: a file with several names is there once. -/
def Directory.onDisk (dir : Directory) : ℕ :=
  (dir.blocks + foldersIn dir.entries + blocksOf dir.files.dedup) * blockSize

theorem named_eq (dir : Directory) :
    dir.named = (dir.blocks + foldersIn dir.entries + blocksOf dir.files) * blockSize := by
  rw [Directory.named, DirEntry.named, DirEntry.folders, DirEntry.files, Directory.files]

theorem onDisk_le_named (dir : Directory) : dir.onDisk ≤ dir.named := by
  have fewer : blocksOf dir.files.dedup ≤ blocksOf dir.files :=
    ((List.dedup_sublist dir.files).map File.blocks).sum_le_sum fun _ _ => Nat.zero_le _
  rw [named_eq, Directory.onDisk]
  gcongr

/-- Without hard links the names are what is on disk. -/
theorem onDisk_eq_named {dir : Directory} (once : dir.files.Nodup) : dir.onDisk = dir.named := by
  rw [named_eq, Directory.onDisk, once.dedup]

theorem usage_le_named (dir : Directory) : dir.usage ≤ dir.named := by
  have bounded := total_le_named (.dir none dir)
  rwa [Meter.total_dir] at bounded

theorem usage_eq_named {dir : Directory} (clean : dir.failures = 0) : dir.usage = dir.named := by
  have same := total_eq_named (.dir none dir) (by rwa [Meter.total_dir])
  rwa [Meter.total_dir] at same

/-- A subdirectory that can be named, with the size of all that can be named below it. -/
def stored : DirEntry → Option (String × ℕ)
  | .dir (some name) listing => some (name, Directory.named listing)
  | _ => none

theorem reported_of_clean {entry : DirEntry} (clean : failuresAt entry = 0) :
    reported Directory.usage entry = stored entry := by
  cases entry with
  | dir name listing =>
    cases name with
    | none => rfl
    | some name =>
      rw [failuresAt] at clean
      by_cases readable : listing.readable = true
      · rw [if_pos readable] at clean
        rw [reported, stored, if_pos readable, usage_eq_named clean]
      · rw [if_neg readable] at clean
        cases clean
  | _ => rfl

theorem le_named_of_reported {entry : DirEntry} {gauge : String × ℕ}
    (shown : reported Directory.usage entry = some gauge) :
    ∃ listing, entry = .dir (some gauge.1) listing ∧ gauge.2 ≤ Directory.named listing := by
  cases entry with
  | dir name listing =>
    cases name with
    | none => cases shown
    | some name =>
      rw [reported] at shown
      split_ifs at shown
      cases shown
      exact ⟨listing, rfl, usage_le_named listing⟩
  | _ => cases shown

/-- A scan that can open the root sets one gauge for each named subdirectory it can open, to
the usage read off the tree, and counts every failed read below them. Where no file has two
names, no gauge overstates what is on disk. Without an error each named subdirectory has a
gauge that reports all of it, and no more than that where no file has two names. -/
theorem sample_reports_usage {root : Directory} (readable : root.readable = true) :
    ∃ scan, sample root = some scan ∧
      scan.gauges = root.entries.filterMap (reported Directory.usage) ∧
      scan.errors = (root.entries.map failuresAt).sum ∧
      (∀ gauge ∈ scan.gauges, ∃ listing, .dir (some gauge.1) listing ∈ root.entries ∧
        ((Directory.files listing).Nodup → gauge.2 ≤ Directory.onDisk listing)) ∧
      (scan.errors = 0 → ∀ name listing, .dir (some name) listing ∈ root.entries →
        ∃ bytes, (name, bytes) ∈ scan.gauges ∧ Directory.onDisk listing ≤ bytes ∧
          ((Directory.files listing).Nodup → bytes = Directory.onDisk listing)) := by
  refine ⟨_, if_pos readable, ?_⟩
  rw [DiskSample.foldl_visit]
  refine ⟨List.nil_append _, Nat.zero_add _, fun gauge set => ?_, fun clean => ?_⟩
  · rw [List.nil_append] at set
    obtain ⟨entry, listed, shown⟩ := List.mem_filterMap.mp set
    obtain ⟨listing, rfl, bounded⟩ := le_named_of_reported shown
    refine ⟨listing, listed, fun once => ?_⟩
    rw [onDisk_eq_named once]
    exact bounded
  · intro name listing listed
    rw [Nat.zero_add, List.sum_eq_zero_iff_forall_eq_nat] at clean
    have same := reported_of_clean (clean _ (List.mem_map_of_mem listed))
    refine ⟨Directory.named listing, ?_, onDisk_le_named listing, fun once => ?_⟩
    · rw [List.nil_append]
      exact List.mem_filterMap.mpr ⟨_, listed, same⟩
    · exact (onDisk_eq_named once).symm

/-- A symbolic link is left out, and what cannot be read is counted. -/
def dataRoot : Directory :=
  ⟨8, true, true, [.file ⟨1, 8⟩, .unreadable (.file ⟨2, 8⟩),
    .dir (some "postgres") ⟨8, true, true, [.symlink, .file ⟨3, 16⟩,
      .dir (some "base") ⟨8, true, true, [.file ⟨4, 24⟩]⟩]⟩,
    .dir (some "bitcoind") ⟨8, true, false, [.file ⟨5, 32⟩]⟩]⟩

theorem sample_dataRoot :
    ∃ scan, sample dataRoot = some scan ∧ scan.gauges = [("postgres", 56 * 512)] ∧
      scan.errors = 2 := by
  obtain ⟨scan, sampled, gauges, errors, -⟩ :=
    sample_reports_usage (rfl : dataRoot.readable = true)
  refine ⟨scan, sampled, ?_, ?_⟩
  · rw [gauges]
    decide
  · rw [errors]
    decide

/-- Two names of one file are charged twice. -/
example : Directory.usage ⟨8, true, true, [.file ⟨1, 8⟩, .file ⟨1, 8⟩]⟩ = 24 * 512 ∧
    Directory.onDisk ⟨8, true, true, [.file ⟨1, 8⟩, .file ⟨1, 8⟩]⟩ = 16 * 512 := by
  decide

end MempoolObserver
