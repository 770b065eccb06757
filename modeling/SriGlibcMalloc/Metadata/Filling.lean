import SriGlibcMalloc.Metadata.Load

/-!
# Adds alone

When every allocation succeeds, the number of bins after a run of adds is a
function of their number, and so is the length of the directory.
-/

namespace SriGlibcMalloc.MetadataTable

open KeyedStack Outcome

set_option autoImplicit false

/-- The buckets from 1 to `count` are added, under the chunks that `chunkOf` names. -/
def addsOf (chunkOf : Nat → Chunk) (count : Nat) : List Op :=
  (List.range count).map fun index => .add (index + 1) (chunkOf index)

variable {table after : Metadata} {chunkOf : Nat → Chunk} {count : Nat}

theorem adds_of_succ :
    addsOf chunkOf (count + 1) = addsOf chunkOf count ++ [.add (count + 1) (chunkOf count)] := by
  simp [addsOf, List.range_succ]

theorem adds_of_length : (specEntries (addsOf chunkOf count)).length = count := by
  induction count with
  | zero => rfl
  | succ count ih =>
      rw [adds_of_succ, spec_entries_concat]
      exact congrArg Nat.succ ih

theorem adds_of_entries : ∀ entry ∈ specEntries (addsOf chunkOf count), entry.2 ≤ count := by
  induction count with
  | zero => exact nofun
  | succ count ih =>
      rw [adds_of_succ, spec_entries_concat]
      intro entry member
      rcases List.mem_cons.mp member with new | old
      · rw [new]
      · exact Nat.le_succ_of_le (ih entry old)

theorem adds_of_admissible (bound : count < 2 ^ 64) : Admissible (addsOf chunkOf count) := by
  induction count with
  | zero => exact Admissible.nil
  | succ count ih =>
      rw [adds_of_succ]
      refine (ih (Nat.lt_of_succ_lt bound)).concat ⟨⟨Nat.succ_pos count, bound⟩, ?_⟩
      intro entry member
      exact Nat.ne_of_lt (Nat.lt_succ_of_le (adds_of_entries entry member))

theorem Run.of_granted {build : Build} {start : Metadata} {ops : List Op} {replies : List Reply}
    (run : Run build granted start ops replies after) :
    Run build anything start ops replies after := by
  induction run with
  | start => exact Run.start
  | next _ fresh _ result ih => exact ih.next fresh trivial result

/-- The allocator always has a segment and a directory that the table does not use. -/
theorem Shape.granted_answers (shape : Shape table) :
    ∃ answers : Answers, answers.Granted ∧ answers.Fresh table := by
  obtain ⟨seg, unused⟩ := Infinite.exists_notMem_finset
    ((Finset.range table.directoryCurrent).image fun index => (table.directory index).getD 0)
  refine ⟨⟨some seg, some (table.directoryAddress + 1)⟩, ⟨nofun, nofun⟩, ?_, by simp⟩
  intro other answer index stored
  cases answer
  apply unused
  have inUse : index < table.directoryCurrent := by
    by_contra beyond
    rw [shape.absent index (by omega)] at stored
    cases stored
  rw [Finset.mem_image]
  exact ⟨index, Finset.mem_range.mpr inUse, by rw [stored]; rfl⟩

/-- The numbers of a new table after `count` adds for which every allocation succeeded. -/
structure Filled (count : Nat) (table : Metadata) : Prop where
  bincount : table.bincount = max 256 (count / 4 + 1)
  length : table.directoryLength = if table.bincount ≤ 261889 then 1024 else 2048

theorem Shape.shallow (shape : Shape table) (narrow : table.bincount < 512) : table.L = 0 := by
  by_contra deep
  obtain ⟨level, same⟩ := Nat.exists_eq_succ_of_ne_zero deep
  have doubling := shape.doubling
  have bins := shape.bins
  have positive := Nat.two_pow_pos level
  rw [same, shape.minimum, pow_succ] at doubling
  omega

theorem Resizes.filled {bucket : BucketPtr} {chunk : Chunk} {count : Nat}
    (resizes : Resizes (.add bucket chunk) table after) (filled : Filled count table)
    (bound : count < 2 ^ 20) (shape : Shape table) (census : after.count = count + 1) :
    Filled (count + 1) after := by
  have most : cfg.maxLoad = 3 := rfl
  have least : cfg.minLoad = 2 := rfl
  have max : cfg.bincountMax = 4294967295 := rfl
  have bincount := filled.bincount
  have length := filled.length
  have current := shape.current
  have bins := shape.bins
  rcases resizes with stays | grows | shrinks
  · have calm := stays.calm bucket chunk rfl (by omega)
    have same := stays.bincount
    have sameLength := stays.length
    rw [census] at calm
    have small : count + 1 < 4 * table.bincount :=
      (Nat.div_lt_iff_lt_mul (by omega)).mp (by omega)
    constructor
    · omega
    · rw [sameLength, same]
      exact length
  · have grown := grows.bincount
    have roomy := grows.length
    have crowded := grows.crowded
    rw [census] at crowded
    have large : 4 * table.bincount ≤ count + 1 :=
      (Nat.le_div_iff_mul_le (by omega)).mp (by omega)
    constructor
    · omega
    · rw [roomy, roomyLength]
      split_ifs at length ⊢ <;> omega
  · have census' := shrinks.census (by omega)
    have depth := shrinks.deep
    have wide : 512 ≤ table.bincount := by
      by_contra narrow
      have shallow := shape.shallow (Nat.lt_of_not_le narrow)
      omega
    omega

section

variable {build : Build} {fuel : Nat} {buckets : BucketPtr → Bucket} {address : DirectoryPtr}
variable {seg : SegmentPtr} {ops : List Op} {op : Op} {replies : List Reply}

/-- A run can always go on when the allocator grants what it is asked for. -/
theorem Run.exists_next (shipped : build.ndebug = true)
    (run : Run build granted (initMetadata fuel buckets address seg) ops replies table)
    (admissible : Admissible (ops ++ [op])) (ample : ops.length + 1 < fuel) :
    ∃ answers reply after, answers.Granted ∧ answers.Fresh table ∧
      step build table op answers = .ok (reply, after) := by
  have begins := init_holds build.hash fuel buckets address seg
  obtain ⟨kept, sameFuel⟩ :=
    run_holds build begins run admissible.earlier (Nat.lt_of_succ_lt ample)
  have shorter := spec_entries_length ops
  have room : (specEntries ops).length + 1 < table.fuel := by
    rw [sameFuel]
    exact Nat.lt_of_le_of_lt (Nat.succ_le_succ shorter) ample
  obtain ⟨answers, allowed, fresh⟩ := kept.shape.granted_answers
  obtain ⟨⟨reply, after⟩, result, _⟩ := (step_spec build kept room fresh admissible.last).returns (by
    rintro fault (debug | refused)
    · rw [shipped] at debug
      cases debug
    · exact allowed.2 refused)
  exact ⟨answers, reply, after, allowed, fresh, result⟩

end

theorem fill_run {fuel : Nat} (hash : Chunk → UInt32) (chunkOf : Nat → Chunk)
    (bound : count ≤ 2 ^ 20) (ample : count + 1 < fuel) :
    ∃ replies table, Run ⟨true, false, hash⟩ granted
        (initMetadata fuel (fun _ => ⟨0, none⟩) 5 6) (addsOf chunkOf count) replies table ∧
      Filled count table := by
  induction count with
  | zero => exact ⟨[], _, Run.start, rfl, rfl⟩
  | succ count ih =>
      obtain ⟨replies, table, run, filled⟩ := ih (Nat.le_of_succ_le bound) (Nat.lt_of_succ_lt ample)
      have admissible : Admissible (addsOf chunkOf (count + 1)) := adds_of_admissible (by omega)
      rw [adds_of_succ] at admissible ⊢
      have length : (addsOf chunkOf count).length = count := by simp [addsOf]
      obtain ⟨answers, reply, after, allowed, fresh, result⟩ :=
        run.exists_next rfl admissible (by omega)
      have longer := run.perform _ answers fresh allowed result
      have begins := init_holds hash fuel (fun _ => ⟨0, none⟩) 5 6
      have given : (initMetadata fuel (fun _ => ⟨0, none⟩) 5 6).fuel = fuel := rfl
      have shape := (run_holds _ begins run admissible.earlier (by omega)).1.shape
      have holds := (run_holds _ begins longer admissible (by simp [length]; omega)).1
      refine ⟨_, after, longer, ?_⟩
      apply ((step_resizes _ shape fresh allowed).value result).filled filled (by omega) shape
      rw [holds.count, ← adds_of_succ, adds_of_length]

def pairOf (index : Nat) : Chunk := index % 512 + 1

/-- Two buckets for each of 512 chunks; the last of the adds splits the first bin. -/
def pairedOps : List Op := addsOf pairOf 1024

theorem paired_admissible : Admissible pairedOps := adds_of_admissible (by decide)

theorem paired_run : ∃ replies table answers reply after,
    Run ⟨true, false, UInt32.ofNat⟩ granted (initMetadata 2048 (fun _ => ⟨0, none⟩) 5 6) pairedOps
        replies table ∧
      table.bincount = 257 ∧ answers.Granted ∧ answers.Fresh table ∧
      step ⟨true, false, UInt32.ofNat⟩ table (.delete 256) answers = .ok (reply, after) := by
  obtain ⟨replies, table, run, filled⟩ := fill_run UInt32.ofNat pairOf
    (show 1024 ≤ 2 ^ 20 by decide) (show 1024 + 1 < 2048 by decide)
  have deletion : Admissible (pairedOps ++ [.delete 256]) := paired_admissible.concat trivial
  obtain ⟨answers, reply, after, allowed, fresh, result⟩ :=
    run.exists_next rfl deletion (by simp [addsOf])
  exact ⟨replies, table, answers, reply, after, run, filled.bincount, allowed, fresh, result⟩

theorem paired_keyed_stack : ∃ replies after,
    Run ⟨true, false, UInt32.ofNat⟩ granted (initMetadata 2048 (fun _ => ⟨0, none⟩) 5 6)
        (pairedOps ++ [.delete 256]) replies after ∧
      replies.getLast? = some (.deleted true) ∧ stackOf UInt32.ofNat after 256 = [256] ∧
      stackOf UInt32.ofNat after 512 = [1024, 512] ∧ after.count = 1023 := by
  obtain ⟨_, table, answers, _, after, run, _, allowed, fresh, result⟩ := paired_run
  have longer := run.perform _ answers fresh allowed result
  obtain ⟨replied, stacked, count, _⟩ := run_keyed_stack _ 2048 _ _ _ _ _ _ rfl longer
    (paired_admissible.concat trivial) (by decide +kernel)
  refine ⟨_, after, longer, ?_, ?_, ?_, ?_⟩
  · rw [replied, spec_replies_concat, List.getLast?_concat]
    decide +kernel
  · rw [stacked]
    decide +kernel
  · rw [stacked]
    decide +kernel
  · rw [count]
    decide +kernel

theorem paired_shape : ∃ replies table answers reply after,
    Run ⟨true, false, UInt32.ofNat⟩ anything (initMetadata 2048 (fun _ => ⟨0, none⟩) 5 6) pairedOps
        replies table ∧
      table.bincount = 257 ∧
      step ⟨true, false, UInt32.ofNat⟩ table (.delete 256) answers = .ok (reply, after) ∧
      Shape after ∧ after.N ≤ after.bincount := by
  obtain ⟨replies, table, answers, reply, after, run, split, _, fresh, result⟩ := paired_run
  have longer := run.of_granted.perform _ answers fresh trivial result
  obtain ⟨shape, bins, _⟩ := reachable_shape _ _ _ _ _ _ _ _ longer
  exact ⟨replies, table, answers, reply, after, run.of_granted, split, result, shape, bins⟩

theorem paired_load : ∃ replies table answers reply after,
    Run ⟨true, false, UInt32.ofNat⟩ granted (initMetadata 2048 (fun _ => ⟨0, none⟩) 5 6) pairedOps
        replies table ∧
      table.bincount = 257 ∧ metadataLoad table ≤ cfg.maxLoad ∧
      step ⟨true, false, UInt32.ofNat⟩ table (.delete 256) answers = .ok (reply, after) ∧
      Settles ⟨true, false, UInt32.ofNat⟩ (.delete 256) table after := by
  obtain ⟨replies, table, answers, reply, after, run, split, allowed, fresh, result⟩ := paired_run
  obtain ⟨load, settles⟩ := reachable_load _ 2048 _ _ _ _ _ _ run paired_admissible
    (by decide +kernel)
  have room : table.bincount < cfg.bincountMax := by
    rw [split]
    decide
  exact ⟨replies, table, answers, reply, after, run, split, load room, result,
    settles _ answers _ _ (paired_admissible.concat trivial) fresh allowed result⟩

end SriGlibcMalloc.MetadataTable
