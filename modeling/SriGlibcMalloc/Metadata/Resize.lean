import SriGlibcMalloc.Metadata.Frame

/-!
# One step of expansion and of contraction

What `metadata_expand_table` and `metadata_contract_table` can do to a table of
the right shape, said once: either the step is refused, or it is a list loop
run on a table one bin larger (before the loop) or one bin smaller (after it).
-/

namespace SriGlibcMalloc.MetadataTable

open Outcome

set_option autoImplicit false

variable {table : Metadata} {answers : Answers} (build : Build)

/-- `after` is `before` with its directory moved or resized, not its entries. -/
structure Redirected (before after : Metadata) : Prop where
  rest : after = { before with
    directoryAddress := after.directoryAddress, directoryLength := after.directoryLength }

/-- `large` has one bin more than `small`, and every bin of `small` where it was. -/
structure Adjacent (small large : Metadata) : Prop where
  bucket : large.bucket = small.bucket
  segment : large.segment = small.segment
  count : large.count = small.count
  fuel : large.fuel = small.fuel
  cache : large.cache = small.cache
  split : splitAfter small.maxp small.p = (large.maxp, large.p)
  bincount : large.bincount = small.bincount + 1
  bins : ∀ index < small.bincount, binAt large index = binAt small index

/-! ## The directory -/

theorem Redirected.refl (table : Metadata) : Redirected table table := ⟨rfl⟩

theorem Shape.redirect {len doublings : Nat} (shape : Shape table) (address : DirectoryPtr)
    (power : len = cfg.initialDirectoryLength * 2 ^ doublings) (bound : len ≤ 2 ^ 25)
    (room : table.directoryCurrent ≤ len) :
    Shape { table with directoryAddress := address, directoryLength := len } where
  minimum := shape.minimum
  doubling := shape.doubling
  depth := shape.depth
  split := shape.split
  bins := shape.bins
  atMost := shape.atMost
  length := ⟨doublings, power⟩
  lengthBound := bound
  current := shape.current
  currentLe := room
  present := shape.present
  absent := shape.absent
  distinct := shape.distinct
  emptyAbove := shape.emptyAbove
  emptyPool := shape.emptyPool

theorem Shape.current_bound (shape : Shape table) : table.directoryCurrent ≤ 2 ^ 24 := by
  have current := shape.current
  have most := shape.atMost
  have max : cfg.bincountMax = 4294967295 := rfl
  omega

theorem Shape.copy_directory {len : Nat} (shape : Shape table)
    (covers : table.directoryCurrent ≤ len) (address : DirectoryPtr) :
    copyDirectory table address len = { table with directoryAddress := address } := by
  have entries : (fun index => if index < len then table.directory index else none) =
      table.directory := by
    funext index
    by_cases inside : index < len
    · rw [if_pos inside]
    · rw [if_neg inside, shape.absent index (by omega)]
  rw [copyDirectory, entries]

/-- A debug build stops at an expansion that doubles the directory to
`directory_length_max` or beyond. -/
def DirectoryTooLong (build : Build) (table : Metadata) : Prop :=
  build.ndebug = false ∧ table.directoryLength = table.directoryCurrent ∧
    cfg.directoryLengthMax ≤ 2 * table.directoryLength

def roomyLength (table : Metadata) : Nat :=
  if table.directoryLength = table.directoryCurrent then 2 * table.directoryLength
  else table.directoryLength

theorem expand_directory_cases (shape : Shape table) (fresh : answers.Fresh table)
    (full : table.directoryLength = table.directoryCurrent) :
    (DirectoryTooLong build table ∧
      metadataExpandDirectory build table answers = .error .assertDirectoryLengthMax) ∨
    ¬DirectoryTooLong build table ∧
    ((answers.directory = none ∧
      metadataExpandDirectory build table answers = .ok (false, table)) ∨
    ∃ newdir, answers.directory = some newdir ∧
      metadataExpandDirectory build table answers = .ok (true, { table with
        directoryAddress := newdir, directoryLength := 2 * table.directoryLength })) := by
  have bound := shape.current_bound
  have doubled : table.directoryLength <<< 1 = 2 * table.directoryLength := by
    rw [Nat.shiftLeft_eq]
    omega
  have newFits := mul_size_exact (2 * table.directoryLength) 8 (by omega)
  have oldFits := mul_size_exact table.directoryLength 8 (by omega)
  have isFull : decide (table.directoryLength = table.directoryCurrent) = true :=
    decide_eq_true full
  simp only [metadataExpandDirectory, doubled, newFits, oldFits, assert, isFull, Bool.or_true,
    if_true, ok_bind]
  by_cases permitted :
      (build.ndebug || decide (2 * table.directoryLength < cfg.directoryLengthMax)) = true
  · right
    rw [if_pos permitted, ok_bind]
    refine ⟨?_, ?_⟩
    · rintro ⟨debug, _, long⟩
      simp only [debug, Bool.false_or, decide_eq_true_eq] at permitted
      exact absurd permitted (Nat.not_lt.mpr long)
    cases answer : answers.directory with
    | none => exact Or.inl ⟨rfl, rfl⟩
    | some newdir =>
        right
        have moved : newdir ≠ table.directoryAddress := by
          intro same
          exact fresh.directory (by rw [answer, same])
        refine ⟨newdir, rfl, ?_⟩
        simp only [if_pos moved, shape.copy_directory (Nat.le_of_eq full.symm), releaseDirectory,
          if_neg (Ne.symm moved), pure_ok]
  · left
    rw [if_neg permitted]
    simp only [Bool.or_eq_true, not_or, Bool.not_eq_true, decide_eq_false_iff_not,
      Nat.not_lt] at permitted
    exact ⟨⟨permitted.1, full, permitted.2⟩, rfl⟩

theorem contract_directory_cases (shape : Shape table) (fresh : answers.Fresh table)
    (half : table.directoryCurrent < table.directoryLength >>> 1) :
    (answers.directory = none ∧
      metadataContractDirectory build table answers = .error .nullDirectory) ∨
    ∃ newdir, answers.directory = some newdir ∧
      metadataContractDirectory build table answers = .ok { table with
        directoryAddress := newdir, directoryLength := table.directoryLength / 2 } := by
  have bound := shape.lengthBound
  have halved : table.directoryLength >>> 1 = table.directoryLength / 2 := by
    rw [Nat.shiftRight_eq_div_pow]
  rw [halved] at half
  have newFits := mul_size_exact (table.directoryLength / 2) 8 (by omega)
  have oldFits := mul_size_exact table.directoryLength 8 (by omega)
  simp only [metadataContractDirectory, halved, newFits, oldFits, assert, half, decide_true,
    Bool.or_true, if_true, ok_bind]
  cases answer : answers.directory with
  | none => exact Or.inl ⟨rfl, rfl⟩
  | some newdir =>
      right
      have moved : table.directoryAddress ≠ newdir := by
        intro same
        exact fresh.directory (by rw [answer, same])
      refine ⟨newdir, rfl, ?_⟩
      simp only [if_pos moved, shape.copy_directory (Nat.le_of_lt half), releaseDirectory,
        if_neg moved, pure_ok]

/-! ## The segment of the new bin -/

def extended (table : Metadata) (newseg : SegmentPtr) : Metadata :=
  { table with
    directory := Function.update table.directory (table.bincount / 256) (some newseg)
    directoryCurrent := table.bincount / 256 + 1 }

/-- What makes a segment fit to hold the bin number `bincount`. -/
structure Roomy (table : Metadata) (newseg : SegmentPtr) : Prop where
  kept : ∀ seg, table.directory (table.bincount / 256) = some seg → seg = newseg
  apart : ∀ index, index ≠ table.bincount / 256 → table.directory index ≠ some newseg
  empty : ∀ offset < 256, table.bincount ≤ 256 * (table.bincount / 256) + offset →
    table.segment newseg offset = none

theorem expand_segment_cases (shape : Shape table)
    (fresh : ∀ seg, answers.segment = some seg → ∀ index, table.directory index ≠ some seg) :
    (table.bincount % 256 = 0 ∧ answers.segment = none ∧
      expandSegment table (table.bincount / 256) (table.bincount % 256) answers =
        (false, table)) ∨
    ∃ newseg, Roomy table newseg ∧ ¬(table.bincount % 256 = 0 ∧ answers.segment = none) ∧
      expandSegment table (table.bincount / 256) (table.bincount % 256) answers =
        (true, extended table newseg) := by
  have current := shape.current
  by_cases boundary : table.bincount % 256 = 0
  · have beyond : table.directory (table.bincount / 256) = none := shape.absent _ (by omega)
    simp only [expandSegment, boundary, beyond, and_self, if_true]
    cases answer : answers.segment with
    | none => exact Or.inl ⟨trivial, rfl, rfl⟩
    | some newseg =>
        right
        have pooled := fresh newseg answer
        refine ⟨newseg, ⟨?_, fun index _ => pooled index, fun offset small _ => ?_⟩, by simp, ?_⟩
        · intro seg stored
          rw [beyond] at stored
          cases stored
        · exact shape.emptyPool newseg pooled offset small
        · simp only [extended, Prod.mk.injEq, true_and]
          rw [show table.directoryCurrent + 1 = table.bincount / 256 + 1 by omega]
  · right
    obtain ⟨newseg, stored⟩ := shape.present (table.bincount / 256) (by omega)
    refine ⟨newseg, ⟨?_, ?_, ?_⟩, fun refused => boundary refused.1, ?_⟩
    · intro seg again
      rw [stored, Option.some.injEq] at again
      exact again.symm
    · intro index different same
      exact different (shape.distinct _ _ _ same stored)
    · exact fun offset small above => shape.emptyAbove _ offset newseg stored small above
    · simp only [expandSegment, boundary, false_and, if_false, extended, Prod.mk.injEq, true_and]
      rw [← stored, Function.update_eq_self,
        show table.bincount / 256 + 1 = table.directoryCurrent by omega]

theorem advance_split_eq (table : Metadata) :
    advanceSplit table = { table with
      maxp := (splitAfter table.maxp table.p).1
      p := (splitAfter table.maxp table.p).2
      L := if table.p + 1 = table.maxp then table.L + 1 else table.L
      bincount := table.bincount + 1 } := by
  unfold advanceSplit splitAfter
  split_ifs with wrap
  · rw [Nat.shiftLeft_eq]
    rw [show table.maxp * 2 ^ 1 = 2 * table.maxp by omega]
  · rfl

theorem Shape.split_numbers (shape : Shape table) (room : table.bincount < cfg.bincountMax) :
    (splitAfter table.maxp table.p).1 =
      table.N * 2 ^ (if table.p + 1 = table.maxp then table.L + 1 else table.L) ∧
    (if table.p + 1 = table.maxp then table.L + 1 else table.L) ≤ 23 ∧
    (splitAfter table.maxp table.p).2 < (splitAfter table.maxp table.p).1 ∧
    table.bincount + 1 = (splitAfter table.maxp table.p).1 + (splitAfter table.maxp table.p).2 := by
  have max : cfg.bincountMax = 4294967295 := rfl
  have doubling := shape.doubling
  have bins := shape.bins
  have split := shape.split
  have depth := shape.depth
  unfold splitAfter
  by_cases wrap : table.p + 1 = table.maxp
  · simp only [if_pos wrap]
    have below : 2 ^ (8 + table.L) < 2 ^ 31 := by
      rw [← shape.maxp_pow]
      omega
    have small : 8 + table.L < 31 := (Nat.pow_lt_pow_iff_right (by omega)).mp below
    refine ⟨?_, by omega, by omega, by omega⟩
    rw [pow_succ, ← mul_assoc, ← doubling]
    omega
  · simp only [if_neg wrap]
    exact ⟨doubling, depth, by omega, by omega⟩

theorem Shape.advance {newseg : SegmentPtr} (shape : Shape table)
    (room : table.bincount < cfg.bincountMax) (roomy : Roomy table newseg)
    (space : table.bincount / 256 < table.directoryLength) :
    Shape (advanceSplit (extended table newseg)) := by
  obtain ⟨doubling, depth, split, bins⟩ := shape.split_numbers room
  have current := shape.current
  have inUse : ∀ index seg, Function.update table.directory (table.bincount / 256)
      (some newseg) index = some seg →
      index = table.bincount / 256 ∧ seg = newseg ∨
        index ≠ table.bincount / 256 ∧ table.directory index = some seg := by
    intro index seg stored
    by_cases same : index = table.bincount / 256
    · rw [same, Function.update_self, Option.some.injEq] at stored
      exact Or.inl ⟨same, stored.symm⟩
    · rw [Function.update_of_ne same] at stored
      exact Or.inr ⟨same, stored⟩
  rw [advance_split_eq]
  exact
    { minimum := shape.minimum
      doubling := doubling
      depth := depth
      split := split
      bins := bins
      atMost := room
      length := shape.length
      lengthBound := shape.lengthBound
      current := by
        change table.bincount / 256 + 1 = (table.bincount + 1 + 255) / 256
        omega
      currentLe := space
      present := by
        intro index bound
        change index < table.bincount / 256 + 1 at bound
        by_cases last : index = table.bincount / 256
        · exact ⟨newseg, by simp [extended, last]⟩
        · obtain ⟨seg, stored⟩ := shape.present index (by omega)
          exact ⟨seg, by simp [extended, Function.update_of_ne last, stored]⟩
      absent := by
        intro index bound
        change table.bincount / 256 + 1 ≤ index at bound
        have other : index ≠ table.bincount / 256 := by omega
        simp only [extended, Function.update_of_ne other]
        exact shape.absent index (by omega)
      distinct := by
        intro left right seg leftStored rightStored
        rcases inUse left seg leftStored with ⟨leftLast, leftNew⟩ | ⟨leftOther, leftOld⟩
        · rcases inUse right seg rightStored with ⟨rightLast, _⟩ | ⟨rightOther, rightOld⟩
          · rw [leftLast, rightLast]
          · rw [leftNew] at rightOld
            exact absurd rightOld (roomy.apart right rightOther)
        · rcases inUse right seg rightStored with ⟨_, rightNew⟩ | ⟨_, rightOld⟩
          · rw [rightNew] at leftOld
            exact absurd leftOld (roomy.apart left leftOther)
          · exact shape.distinct left right seg leftOld rightOld
      emptyAbove := by
        intro index offset seg stored small above
        change table.bincount + 1 ≤ 256 * index + offset at above
        rcases inUse index seg stored with ⟨last, new⟩ | ⟨_, old⟩
        · rw [new]
          exact roomy.empty offset small (by omega)
        · exact shape.emptyAbove index offset seg old small (by omega)
      emptyPool := by
        intro seg pooled offset small
        have notNew : seg ≠ newseg := by
          intro same
          exact pooled (table.bincount / 256) (by simp [extended, same])
        apply shape.emptyPool seg _ offset small
        intro index stored
        by_cases last : index = table.bincount / 256
        · rw [last] at stored
          exact notNew (roomy.kept seg stored)
        · exact pooled index (by simp [extended, Function.update_of_ne last, stored]) }

theorem advance_adjacent {newseg : SegmentPtr} (shape : Shape table) (roomy : Roomy table newseg) :
    Adjacent table (advanceSplit (extended table newseg)) := by
  rw [advance_split_eq]
  exact
    { bucket := rfl
      segment := rfl
      count := rfl
      fuel := rfl
      cache := rfl
      split := rfl
      bincount := rfl
      bins := by
        intro index bound
        by_cases last : index / 256 = table.bincount / 256
        · obtain ⟨seg, stored⟩ := shape.present _ (shape.segindex_lt bound)
          have same := roomy.kept seg (last ▸ stored)
          simp only [binAt, extended]
          rw [last, Function.update_self, ← last, stored, same]
        · simp [binAt, extended, Function.update_of_ne last] }

theorem advance_new_bin {newseg : SegmentPtr} (roomy : Roomy table newseg) :
    binAt (advanceSplit (extended table newseg)) table.bincount =
        (newseg, table.bincount % 256) ∧
      topOf (advanceSplit (extended table newseg)) table.bincount = none := by
  have place : binAt (advanceSplit (extended table newseg)) table.bincount =
      (newseg, table.bincount % 256) := by
    rw [advance_split_eq]
    simp [binAt, extended]
  refine ⟨place, ?_⟩
  rw [topOf, place, advance_split_eq]
  exact roomy.empty _ (by omega) (by omega)

/-! ## The whole step of expansion -/

/-- The two allocations an expansion may need, when the answer is null. -/
def Refused (table : Metadata) (answers : Answers) : Prop :=
  (table.directoryLength = table.directoryCurrent ∧ answers.directory = none) ∨
    (table.bincount % 256 = 0 ∧ answers.segment = none)

theorem expand_bin_cases (shape : Shape table)
    (fresh : ∀ seg, answers.segment = some seg → ∀ index, table.directory index ≠ some seg)
    (room : table.bincount < cfg.bincountMax)
    (space : table.directoryCurrent < table.directoryLength) :
    (table.bincount % 256 = 0 ∧ answers.segment = none ∧
      expandBin build table table.bincount answers = .ok (false, table)) ∨
    ∃ large, Shape large ∧ Adjacent table large ∧ topOf large table.bincount = none ∧
      large.directoryLength = table.directoryLength ∧
      ¬(table.bincount % 256 = 0 ∧ answers.segment = none) ∧
      expandBin build table table.bincount answers =
        splitBuckets build table.bincount (binAt large table.p) (binAt large table.bincount)
          large.fuel (topOf large table.p) none none large >>= fun split => .ok (true, split) := by
  have splitBound : table.p < table.bincount := by
    have bins := shape.bins
    have positive := shape.maxp_positive
    omega
  have oldBin := shape.bindex2bin build splitBound
  rcases expand_segment_cases shape fresh with ⟨boundary, answer, refused⟩ | ⟨newseg, roomy, granted, grown⟩
  · left
    refine ⟨boundary, answer, ?_⟩
    have segments : cfg.segmentLength = 256 := rfl
    simp only [expandBin, oldBin, ok_bind, mod_segment_length]
    rw [segments, refused]
    rfl
  · right
    have adjacent := advance_adjacent shape roomy
    obtain ⟨newBin, empty⟩ := advance_new_bin roomy
    have current := shape.current
    refine ⟨advanceSplit (extended table newseg),
      shape.advance room roomy (by omega), adjacent, empty, by rw [advance_split_eq]; rfl,
      granted, ?_⟩
    have segments : cfg.segmentLength = 256 := rfl
    have stored : (extended table newseg).directory (table.bincount / 256) = some newseg := by
      simp [extended]
    rw [topOf, newBin] at empty
    simp only [expandBin, oldBin, ok_bind, mod_segment_length]
    rw [segments, grown]
    simp only [stored, assert, empty, decide_true, Bool.or_true, if_true, ok_bind, newBin,
      adjacent.bins _ splitBound, pure_ok, topOf]

theorem Redirected.adjacent {ready large : Metadata} (redirected : Redirected table ready)
    (adjacent : Adjacent ready large) : Adjacent table large := by
  rw [redirected.rest] at adjacent
  exact
    { bucket := adjacent.bucket
      segment := adjacent.segment
      count := adjacent.count
      fuel := adjacent.fuel
      cache := adjacent.cache
      split := adjacent.split
      bincount := adjacent.bincount
      bins := adjacent.bins }

theorem expand_directory_if_full_cases (shape : Shape table) (fresh : answers.Fresh table) :
    (DirectoryTooLong build table ∧
      expandDirectoryIfFull build table answers = .error .assertDirectoryLengthMax) ∨
    ¬DirectoryTooLong build table ∧
    ((table.directoryLength = table.directoryCurrent ∧ answers.directory = none ∧
      expandDirectoryIfFull build table answers = .ok (false, table)) ∨
    ∃ ready, Redirected table ready ∧ Shape ready ∧
      ready.directoryCurrent < ready.directoryLength ∧
      ready.directoryLength = roomyLength table ∧
      ¬(table.directoryLength = table.directoryCurrent ∧ answers.directory = none) ∧
      expandDirectoryIfFull build table answers = .ok (true, ready)) := by
  unfold expandDirectoryIfFull roomyLength
  by_cases full : table.directoryLength = table.directoryCurrent
  · rw [if_pos full, if_pos full]
    rcases expand_directory_cases build shape fresh full with
      abort | ⟨short, refused | ⟨newdir, granted, run⟩⟩
    · exact Or.inl abort
    · exact Or.inr ⟨short, Or.inl ⟨full, refused⟩⟩
    · right
      obtain ⟨doublings, power⟩ := shape.length
      have doubled : 2 * table.directoryLength =
          cfg.initialDirectoryLength * 2 ^ (doublings + 1) := by
        rw [power]
        ring
      have bound := shape.current_bound
      have positive : 0 < table.directoryLength := by
        rw [power]
        exact Nat.mul_pos (by decide) (Nat.two_pow_pos _)
      refine ⟨short, Or.inr ⟨_, ⟨rfl⟩, shape.redirect newdir doubled (by omega) (by omega), ?_,
        rfl, ?_, run⟩⟩
      · change table.directoryCurrent < 2 * table.directoryLength
        omega
      · rw [granted]
        simp
  · rw [if_neg full, if_neg full]
    right
    have room := shape.currentLe
    exact ⟨fun long => full long.2.1, Or.inr ⟨table, Redirected.refl table, shape, by omega, rfl,
      fun refused => full refused.1, rfl⟩⟩

theorem expand_table_cases (shape : Shape table) (fresh : answers.Fresh table)
    (room : table.bincount < cfg.bincountMax) :
    (DirectoryTooLong build table ∧
      metadataExpandTable build table answers = .error .assertDirectoryLengthMax) ∨
    ¬DirectoryTooLong build table ∧
    ((Refused table answers ∧ ∃ ready, Redirected table ready ∧ Shape ready ∧
      metadataExpandTable build table answers = .ok (false, ready)) ∨
    (¬Refused table answers ∧ ∃ large, Shape large ∧ Adjacent table large ∧
      topOf large table.bincount = none ∧ large.directoryLength = roomyLength table ∧
      metadataExpandTable build table answers =
        splitBuckets build table.bincount (binAt large table.p) (binAt large table.bincount)
          large.fuel (topOf large table.p) none none large >>= fun split =>
            .ok (true, split))) := by
  have max : cfg.bincountMax = 4294967295 := rfl
  have bins := shape.bins
  have newBindex : addSize table.maxp table.p = some table.bincount := by
    rw [bins]
    exact add_size_exact _ _ (by omega)
  simp only [metadataExpandTable, newBindex, assert, decide_eq_true room, Bool.or_true, if_true,
    ok_bind]
  rcases expand_directory_if_full_cases build shape fresh with
    ⟨long, run⟩ | ⟨short, ⟨full, answer, run⟩ |
      ⟨ready, redirected, readyShape, space, length, granted, run⟩⟩
  · left
    exact ⟨long, by rw [run]; rfl⟩
  · right
    exact ⟨short, Or.inl ⟨Or.inl ⟨full, answer⟩, table, Redirected.refl table, shape,
      by rw [run]; rfl⟩⟩
  · right
    refine ⟨short, ?_⟩
    rw [run]
    have sameBins : ready.bincount = table.bincount := by rw [redirected.rest]
    have sameSplit : ready.p = table.p := by rw [redirected.rest]
    have readyFresh : ∀ seg, answers.segment = some seg → ∀ index,
        ready.directory index ≠ some seg := by
      rw [redirected.rest]
      exact fresh.segment
    simp only [ok_bind, if_true, if_pos room]
    rw [← sameBins] at room
    rcases expand_bin_cases build readyShape readyFresh room space with
      ⟨boundary, answer, binRun⟩ |
      ⟨large, largeShape, adjacent, empty, sameLength, bothGranted, binRun⟩
    · left
      rw [sameBins] at boundary binRun
      exact ⟨Or.inr ⟨boundary, answer⟩, ready, redirected, readyShape, binRun⟩
    · right
      rw [sameBins] at empty bothGranted binRun
      rw [sameSplit] at binRun
      refine ⟨?_, large, largeShape, redirected.adjacent adjacent, empty,
        sameLength.trans length, binRun⟩
      rintro (directory | segment)
      · exact granted directory
      · exact bothGranted segment

/-! ## The whole step of contraction -/

/-- `(maxp, p)` after one contraction; the target bin is the new `p`. -/
def mergeBefore (maxp p : Nat) : Nat × Nat :=
  if p = 0 then (maxp / 2, maxp / 2 - 1) else (maxp, p - 1)

def retreated (table : Metadata) : Metadata :=
  retreatSplit (contractSegment table ((table.bincount - 1) / 256) ((table.bincount - 1) % 256))

theorem retreated_eq (table : Metadata) :
    retreated table = { table with
      directory := if (table.bincount - 1) % 256 = 0 then
          Function.update table.directory ((table.bincount - 1) / 256) none
        else table.directory
      directoryCurrent := if (table.bincount - 1) % 256 = 0 then table.directoryCurrent - 1
        else table.directoryCurrent
      maxp := (mergeBefore table.maxp table.p).1
      p := (mergeBefore table.maxp table.p).2
      L := if table.p = 0 then table.L - 1 else table.L
      bincount := table.bincount - 1 } := by
  have halved : table.maxp >>> 1 = table.maxp / 2 := by
    rw [Nat.shiftRight_eq_div_pow]
  unfold retreated contractSegment retreatSplit mergeBefore
  split_ifs with boundary wrap wrap <;> simp_all

section Arithmetic

variable {maxp p : Nat}

theorem split_after_merge (even : maxp % 2 = 0) (split : p < maxp) :
    splitAfter (mergeBefore maxp p).1 (mergeBefore maxp p).2 = (maxp, p) := by
  unfold mergeBefore splitAfter
  by_cases wrap : p = 0
  · simp only [if_pos wrap]
    rw [if_pos (by omega), wrap]
    rw [show 2 * (maxp / 2) = maxp by omega]
  · simp only [if_neg wrap]
    rw [if_neg (by omega)]
    rw [show p - 1 + 1 = p by omega]

theorem merge_before_bounds (even : maxp % 2 = 0) (split : p < maxp) :
    (mergeBefore maxp p).2 < (mergeBefore maxp p).1 ∧
      (mergeBefore maxp p).1 + (mergeBefore maxp p).2 = maxp + p - 1 := by
  unfold mergeBefore
  by_cases wrap : p = 0
  · simp only [if_pos wrap]
    constructor <;> omega
  · simp only [if_neg wrap]
    constructor <;> omega

end Arithmetic

theorem Shape.even (shape : Shape table) : table.maxp % 2 = 0 := by
  rw [shape.maxp_pow, pow_add]
  omega

theorem Shape.wide (shape : Shape table) (deep : 0 < table.L) : 256 < table.bincount := by
  obtain ⟨level, same⟩ := Nat.exists_eq_succ_of_ne_zero (Nat.ne_of_gt deep)
  have positive := Nat.two_pow_pos level
  have doubling := shape.doubling
  have bins := shape.bins
  rw [shape.minimum, same, pow_succ] at doubling
  omega

theorem Shape.deep_at_wrap (shape : Shape table) (wide : 256 < table.bincount)
    (wrap : table.p = 0) : 0 < table.L := by
  by_contra shallow
  have level : table.L = 0 := Nat.eq_zero_of_not_pos shallow
  have doubling := shape.doubling
  have bins := shape.bins
  rw [level, shape.minimum] at doubling
  omega

theorem Shape.merge_numbers (shape : Shape table) (wide : 256 < table.bincount) :
    (mergeBefore table.maxp table.p).1 =
      table.N * 2 ^ (if table.p = 0 then table.L - 1 else table.L) ∧
    (mergeBefore table.maxp table.p).2 < (mergeBefore table.maxp table.p).1 ∧
    table.bincount - 1 = (mergeBefore table.maxp table.p).1 + (mergeBefore table.maxp table.p).2 ∧
    splitAfter (mergeBefore table.maxp table.p).1 (mergeBefore table.maxp table.p).2 =
      (table.maxp, table.p) := by
  obtain ⟨below, last⟩ := merge_before_bounds shape.even shape.split
  refine ⟨?_, below, ?_, split_after_merge shape.even shape.split⟩
  · unfold mergeBefore
    split_ifs with wrap
    · obtain ⟨level, same⟩ :=
        Nat.exists_eq_succ_of_ne_zero (Nat.ne_of_gt (shape.deep_at_wrap wide wrap))
      rw [shape.doubling, same, Nat.succ_sub_one, pow_succ, ← mul_assoc]
      exact Nat.mul_div_cancel _ (by omega)
    · exact shape.doubling
  · rw [last, shape.bins]

theorem Shape.retreat (shape : Shape table) (wide : 256 < table.bincount)
    (empty : topOf table (table.bincount - 1) = none) : Shape (retreated table) := by
  obtain ⟨doubling, split, bins, _⟩ := shape.merge_numbers wide
  have current := shape.current
  have binsNow := shape.bins
  have least := shape.maxp_at_least
  have atMost := shape.atMost
  have depth := shape.depth
  have currentLe := shape.currentLe
  obtain ⟨lastSeg, lastStored⟩ := shape.present ((table.bincount - 1) / 256) (by omega)
  have lastEmpty : table.segment lastSeg ((table.bincount - 1) % 256) = none := by
    simpa [topOf, binAt, lastStored, Metadata.slot] using empty
  -- every slot from the emptied bin on is null
  have above : ∀ index offset seg, table.directory index = some seg → offset < 256 →
      table.bincount - 1 ≤ 256 * index + offset → table.segment seg offset = none := by
    intro index offset seg stored small bound
    by_cases last : 256 * index + offset = table.bincount - 1
    · have sameIndex : index = (table.bincount - 1) / 256 := by omega
      have sameOffset : offset = (table.bincount - 1) % 256 := by omega
      rw [sameIndex, lastStored, Option.some.injEq] at stored
      rw [← stored, sameOffset]
      exact lastEmpty
    · exact shape.emptyAbove index offset seg stored small (by omega)
  have kept : ∀ index seg, (retreated table).directory index = some seg →
      table.directory index = some seg := by
    intro index seg stored
    rw [retreated_eq] at stored
    simp only at stored
    split_ifs at stored
    · by_cases last : index = (table.bincount - 1) / 256
      · rw [last, Function.update_self] at stored
        cases stored
      · rwa [Function.update_of_ne last] at stored
    · exact stored
  have bincount : (retreated table).bincount = table.bincount - 1 := by rw [retreated_eq]
  have segment : (retreated table).segment = table.segment := by rw [retreated_eq]
  have newCurrent : (retreated table).directoryCurrent = (table.bincount - 1 + 255) / 256 := by
    rw [retreated_eq]
    simp only
    split_ifs <;> omega
  exact
    { minimum := by rw [retreated_eq]; exact shape.minimum
      doubling := by rw [retreated_eq]; exact doubling
      depth := by
        rw [retreated_eq]
        simp only
        split_ifs <;> omega
      split := by rw [retreated_eq]; exact split
      bins := by rw [retreated_eq]; exact bins
      atMost := by
        rw [bincount]
        omega
      length := by rw [retreated_eq]; exact shape.length
      lengthBound := by rw [retreated_eq]; exact shape.lengthBound
      current := by rw [newCurrent, bincount]
      currentLe := by
        rw [newCurrent, retreated_eq]
        simp only
        omega
      present := by
        intro index bound
        rw [newCurrent] at bound
        obtain ⟨seg, stored⟩ := shape.present index (by omega)
        refine ⟨seg, ?_⟩
        rw [retreated_eq]
        simp only
        split_ifs with boundary
        · rw [Function.update_of_ne (by omega), stored]
        · exact stored
      absent := by
        intro index bound
        rw [newCurrent] at bound
        rw [retreated_eq]
        simp only
        split_ifs with boundary
        · by_cases last : index = (table.bincount - 1) / 256
          · rw [last, Function.update_self]
          · rw [Function.update_of_ne last, shape.absent index (by omega)]
        · exact shape.absent index (by omega)
      distinct := fun left right seg leftStored rightStored =>
        shape.distinct left right seg (kept left seg leftStored) (kept right seg rightStored)
      emptyAbove := by
        intro index offset seg stored small bound
        rw [bincount] at bound
        rw [segment]
        exact above index offset seg (kept index seg stored) small bound
      emptyPool := by
        intro seg pooled offset small
        rw [segment]
        by_cases inUse : ∃ index, table.directory index = some seg
        · obtain ⟨index, stored⟩ := inUse
          have boundary : (table.bincount - 1) % 256 = 0 ∧ index = (table.bincount - 1) / 256 := by
            by_contra other
            apply pooled index
            rw [retreated_eq]
            simp only
            split_ifs with atBoundary
            · rw [Function.update_of_ne (fun last => other ⟨atBoundary, last⟩), stored]
            · exact stored
          exact above index offset seg stored small (by omega)
        · exact shape.emptyPool seg (fun index stored => inUse ⟨index, stored⟩) offset small }

theorem retreat_adjacent (shape : Shape table) (wide : 256 < table.bincount) :
    Adjacent (retreated table) table := by
  obtain ⟨_, _, bins, split⟩ := shape.merge_numbers wide
  have binsNow := shape.bins
  have least := shape.maxp_at_least
  rw [retreated_eq]
  exact
    { bucket := rfl
      segment := rfl
      count := rfl
      fuel := rfl
      cache := rfl
      split := split
      bincount := by
        change table.bincount = table.bincount - 1 + 1
        omega
      bins := by
        intro index bound
        change index < table.bincount - 1 at bound
        simp only [binAt]
        split_ifs with boundary
        · rw [Function.update_of_ne (by omega)]
        · rfl }

theorem contract_bin_eq (shape : Shape table) (wide : 256 < table.bincount) :
    contractBin build table =
      moveBuckets table (binAt table (table.bincount - 1))
        (binAt table (mergeBefore table.maxp table.p).2) >>= fun moved =>
          .ok (retreatSplit (contractSegment moved ((table.bincount - 1) / 256)
            ((table.bincount - 1) % 256))) := by
  obtain ⟨_, split, bins, _⟩ := shape.merge_numbers wide
  have binsNow := shape.bins
  have least := shape.maxp_at_least
  have max : cfg.bincountMax = 4294967295 := rfl
  have atMost := shape.atMost
  have halved : table.maxp >>> 1 = table.maxp / 2 := by
    rw [Nat.shiftRight_eq_div_pow]
  have indices : contractIndices table =
      some (table.bincount - 1, (mergeBefore table.maxp table.p).2) := by
    unfold contractIndices mergeBefore
    by_cases wrap : table.p = 0
    · simp only [if_pos wrap, halved]
      rw [show table.maxp - 1 = table.bincount - 1 by omega]
    · simp only [if_neg wrap]
      rw [add_size_exact _ _ (by omega)]
      simp only [Option.map_some]
      rw [show table.maxp + (table.p - 1) = table.bincount - 1 by omega]
  have srcBound : table.bincount - 1 < table.bincount := by omega
  have tgtBound : (mergeBefore table.maxp table.p).2 < table.bincount := by omega
  have segments : cfg.segmentLength = 256 := rfl
  simp only [contractBin, indices, assert, decide_eq_true srcBound, decide_eq_true tgtBound,
    Bool.or_true, if_true, ok_bind, shape.bindex2bin build srcBound,
    shape.bindex2bin build tgtBound, mod_segment_length, pure_ok]
  rw [segments]

def ShrinksDirectory (table : Metadata) : Prop :=
  table.directoryLength > cfg.initialDirectoryLength ∧
    table.directoryCurrent < table.directoryLength / 2

theorem contract_table_cases (shape : Shape table) (fresh : answers.Fresh table)
    (wide : 256 < table.bincount) :
    (ShrinksDirectory table ∧ answers.directory = none ∧
      metadataContractTable build table answers = .error .nullDirectory) ∨
    ¬(ShrinksDirectory table ∧ answers.directory = none) ∧
    ∃ ready, Redirected table ready ∧ Shape ready ∧ (¬ShrinksDirectory table → ready = table) ∧
      metadataContractTable build table answers =
        moveBuckets ready (binAt ready (table.bincount - 1))
          (binAt ready (mergeBefore table.maxp table.p).2) >>= fun moved =>
            .ok (retreatSplit (contractSegment moved ((table.bincount - 1) / 256)
              ((table.bincount - 1) % 256))) := by
  have halved : table.directoryLength >>> 1 = table.directoryLength / 2 := by
    rw [Nat.shiftRight_eq_div_pow]
  unfold metadataContractTable
  split_ifs with shrinks
  · have long : ShrinksDirectory table := by
      rw [ShrinksDirectory, ← halved]
      exact shrinks
    rcases contract_directory_cases build shape fresh shrinks.2 with
      ⟨answer, run⟩ | ⟨newdir, granted, run⟩
    · left
      exact ⟨long, answer, by rw [run]; rfl⟩
    · right
      obtain ⟨large, half⟩ := shrinks
      obtain ⟨doublings, power⟩ := shape.length
      have positive : 0 < doublings := by
        rcases Nat.eq_zero_or_pos doublings with zero | positive
        · rw [zero] at power
          omega
        · exact positive
      obtain ⟨fewer, same⟩ := Nat.exists_eq_succ_of_ne_zero (Nat.ne_of_gt positive)
      have shorter : table.directoryLength / 2 = cfg.initialDirectoryLength * 2 ^ fewer := by
        rw [power, same, pow_succ, ← mul_assoc]
        omega
      have bound := shape.lengthBound
      rw [halved] at half
      have ready := shape.redirect newdir shorter (by omega) (by omega)
      refine ⟨by simp [granted], _, ⟨rfl⟩, ready, fun short => absurd long short, ?_⟩
      rw [run, ok_bind]
      exact contract_bin_eq build ready wide
  · right
    have short : ¬ShrinksDirectory table := by
      rw [ShrinksDirectory, ← halved]
      exact shrinks
    refine ⟨fun starved => short starved.1, table, Redirected.refl table, shape,
      fun _ => rfl, ?_⟩
    rw [pure_ok, ok_bind]
    exact contract_bin_eq build shape wide

end SriGlibcMalloc.MetadataTable
