import SriGlibcMalloc.Lphash.Model
import SriGlibcMalloc.Metadata.Filling

/-!
# The replay table is a keyed stack of values

The buckets of the table are those of a metadata table, so the table holds a
keyed stack of buckets; their values make it a keyed stack of values.
-/

namespace SriGlibcMalloc.ReplayTable

open MetadataTable KeyedStack Outcome PointerList

set_option autoImplicit false

def specStep (entries : Entries Key Value) : Op → Reply × Entries Key Value
  | .insert key value => (.inserted true, push entries key value)
  | .lookup key => (.found ((stack entries key).headD 0), entries)
  | .delete key => (.deleted (stack entries key ≠ []), pop entries key)
  | .deleteAll key => (.purged (stack entries key).length, popAll entries key)

def specRun (ops : List Op) : List Reply × Entries Key Value :=
  ops.foldl (fun state op => (state.1 ++ [(specStep state.2 op).1], (specStep state.2 op).2))
    ([], [])

/-- What the table holds, with the values that the buckets carry. -/
def Represents (lhtbl : Lphash) (entries : Entries Key Value) : Prop :=
  ∃ held : Entries Key BucketPtr, Holds lpjenkinsHashPtr lhtbl.table held ∧
    entries = held.map fun entry => (entry.1, lhtbl.value entry.2)

def valuesOf (lhtbl : Lphash) (key : Key) : List Value :=
  (stackOf lpjenkinsHashPtr lhtbl.table key).map lhtbl.value

structure Grants.Fresh (grants : Grants) (lhtbl : Lphash) : Prop where
  memory : grants.answers.Fresh lhtbl.table
  bucket : ∀ bucket, grants.bucket = some bucket → (0 < bucket ∧ bucket < 2 ^ 64) ∧
    ∀ key, bucket ∉ stackOf lpjenkinsHashPtr lhtbl.table key

def Grants.Granted (grants : Grants) : Prop :=
  grants.bucket ≠ none ∧ grants.segment ≠ none ∧ grants.directory ≠ none

inductive Run (ndebug : Bool) (start : Lphash) : List Op → List Reply → Lphash → Prop
  | start : Run ndebug start [] [] start
  | next {ops : List Op} {replies : List Reply} {before after : Lphash} {op : Op}
      {grants : Grants} {reply : Reply} (earlier : Run ndebug start ops replies before)
      (fresh : grants.Fresh before) (granted : grants.Granted)
      (result : perform ndebug before op grants = .ok (reply, after)) :
      Run ndebug start (ops ++ [op]) (replies ++ [reply]) after

variable {table : Metadata} {held : Entries Key BucketPtr} {lhtbl : Lphash}
variable {entries : Entries Key Value} {grants : Grants} {key : Key} {value : Value}
variable (ndebug : Bool)

theorem fetch_bucket_eq (shape : Shape table) (key : Key) :
    lphashFetchBucket ndebug table key = metadataFetchBucket (lphashBuild ndebug) table key := by
  have bound := shape.bindex_of_lt lpjenkinsHashPtr key
  have index : lphashBindex ndebug table key = .ok (bindexOf lpjenkinsHashPtr table key) :=
    shape.metadata_bindex (lphashBuild ndebug) key
  have index' : metadataBindex (lphashBuild ndebug) table key =
      .ok (bindexOf lpjenkinsHashPtr table key) := index
  rw [lphashFetchBucket, metadataFetchBucket, index, index', ok_bind, ok_bind, lpbindex2bin,
    if_pos bound]

theorem expand_check_holds {answers : Answers} (holds : Holds lpjenkinsHashPtr table held)
    (ample : held.length < table.fuel) (fresh : answers.Fresh table) (granted : ¬Refused table answers) :
    Ensures (fun result => Holds lpjenkinsHashPtr result.2 held ∧ Steady table result.2 ∧
        result.1 = true)
      (DirectoryMax (lphashBuild ndebug)) (lphashExpandCheck ndebug table answers) := by
  unfold lphashExpandCheck
  split_ifs with crowded
  · apply (expand_table_spec (lphashBuild ndebug) holds ample fresh crowded.1).weaken
    · intro result spec
      obtain ⟨kept, steady, failed⟩ := spec
      refine ⟨kept, steady, ?_⟩
      cases answer : result.1 with
      | true => rfl
      | false => exact absurd (failed.mp answer) granted
    · intro fault allowed
      exact allowed
  · exact ⟨holds, Steady.refl table, rfl⟩

theorem delete_eq (shape : Shape lhtbl.table) :
    lphashDelete ndebug lhtbl key grants =
      (metadataDelete (lphashBuild ndebug) lhtbl.table key grants.answers >>= fun result =>
        return (result.1, { lhtbl with table := result.2 })) := by
  have uncached : ifCached (lphashBuild ndebug) lhtbl.table (fun cache => cacheDelete cache key) =
      lhtbl.table := rfl
  simp only [lphashDelete, metadataDelete, uncached, fetch_bucket_eq ndebug shape, bind_assoc]
  apply congrArg (metadataFetchBucket (lphashBuild ndebug) lhtbl.table key >>= ·)
  funext binp
  apply congrArg (deleteLoop key binp lhtbl.table.fuel none (lhtbl.table.slot binp) lhtbl.table >>= ·)
  funext result
  cases result.1 with
  | false => rfl
  | true =>
      simp only [if_true, bind_assoc]
      rfl

theorem delete_all_eq (shape : Shape lhtbl.table) :
    lphashDeleteAll ndebug lhtbl key grants =
      (metadataDeleteAll (lphashBuild ndebug) lhtbl.table key grants.answers >>= fun result =>
        return (result.1, { lhtbl with table := result.2 })) := by
  simp only [lphashDeleteAll, metadataDeleteAll, fetch_bucket_eq ndebug shape, bind_assoc]
  apply congrArg (metadataFetchBucket (lphashBuild ndebug) lhtbl.table key >>= ·)
  funext binp
  apply congrArg
    (deleteAllLoop key binp lhtbl.table.fuel 0 none (lhtbl.table.slot binp) lhtbl.table >>= ·)
  funext result
  by_cases some : result.1 > 0
  · simp only [if_pos some, bind_assoc]
    rfl
  · simp only [if_neg some]
    rfl

theorem lookup_value_spec {fuel : Nat} {current : Option BucketPtr} {nodes : List BucketPtr}
    (chain : Chain lhtbl.table.nextBucket current nodes) (enough : nodes.length < fuel) :
    lookupValue lhtbl key fuel current =
      .ok (((carrying lhtbl.table key nodes).map lhtbl.value).headD 0) := by
  induction nodes generalizing fuel current with
  | nil =>
      obtain ⟨less, shape⟩ := Nat.exists_eq_succ_of_ne_zero (Nat.ne_of_gt enough)
      have ended : current = none := chain
      subst shape
      subst ended
      rfl
  | cons node rest ih =>
      obtain ⟨less, shape⟩ := Nat.exists_eq_succ_of_ne_zero (Nat.ne_of_gt (Nat.zero_lt_of_lt enough))
      subst shape
      obtain ⟨here, later⟩ := chain
      subst here
      rw [lookupValue]
      by_cases same : key = (lhtbl.table.bucket node).chunk
      · rw [if_pos same]
        simp [carrying, ← same]
      · rw [if_neg same, ih later (Nat.lt_of_succ_lt_succ enough)]
        simp [carrying, Ne.symm same]

theorem lookup_spec (holds : Holds lpjenkinsHashPtr lhtbl.table held)
    (ample : held.length < lhtbl.table.fuel) (key : Key) :
    lphashLookup ndebug lhtbl key = .ok (((stack held key).map lhtbl.value).headD 0) := by
  obtain ⟨bins, chained, stacked⟩ := holds.chains
  have chain := chained.chain _ (holds.shape.bindex_of_lt lpjenkinsHashPtr key)
  have short : (bins (bindexOf lpjenkinsHashPtr lhtbl.table key)).length < lhtbl.table.fuel :=
    Nat.lt_of_le_of_lt (chained.bin_length stacked) ample
  have fetched : metadataFetchBucket (lphashBuild ndebug) lhtbl.table key =
      .ok (binAt lhtbl.table (bindexOf lpjenkinsHashPtr lhtbl.table key)) :=
    holds.shape.fetch_bucket (lphashBuild ndebug) key
  rw [lphashLookup, fetch_bucket_eq ndebug holds.shape, fetched, ok_bind, stacked]
  exact lookup_value_spec chain short

theorem Grants.not_refused (granted : grants.Granted) : ¬Refused table grants.answers := by
  intro refused
  rcases refused with directory | segment
  · exact granted.2.2 directory.2
  · exact granted.2.1 segment.2

theorem Grants.Fresh.absent {bucket : BucketPtr} (fresh : grants.Fresh lhtbl)
    (chosen : grants.bucket = some bucket) (holds : Holds lpjenkinsHashPtr lhtbl.table held)
    (ample : held.length ≤ lhtbl.table.fuel) : ∀ entry ∈ held, entry.2 ≠ bucket := by
  intro entry member same
  apply (fresh.bucket bucket chosen).2 entry.1
  rw [holds.stack_of ample, mem_stack, ← same]
  exact member

theorem insert_spec (holds : Holds lpjenkinsHashPtr lhtbl.table held)
    (ample : held.length + 1 < lhtbl.table.fuel) (fresh : grants.Fresh lhtbl)
    (granted : grants.Granted) :
    Ensures (fun result => result.1 = true ∧ result.2.table.fuel = lhtbl.table.fuel ∧
        Represents result.2
          (push (held.map fun entry => (entry.1, lhtbl.value entry.2)) key value))
      (DirectoryMax (lphashBuild ndebug)) (lphashInsert ndebug lhtbl key value grants) := by
  have fetched : metadataFetchBucket (lphashBuild ndebug) lhtbl.table key =
      .ok (binAt lhtbl.table (bindexOf lpjenkinsHashPtr lhtbl.table key)) :=
    holds.shape.fetch_bucket (lphashBuild ndebug) key
  cases chosen : grants.bucket with
  | none => exact absurd chosen granted.1
  | some newbucket =>
      have absent := fresh.absent chosen holds (by omega)
      have keyed := holds.set_chunk absent key
      have carries : ((setChunk lhtbl.table newbucket key).bucket newbucket).chunk = key := by
        simp [setChunk]
      have linked := keyed.link carries absent (fresh.bucket newbucket chosen).1
      obtain ⟨after, afterIs⟩ : ∃ after, linkFront (setChunk lhtbl.table newbucket key)
          (binAt (setChunk lhtbl.table newbucket key)
            (bindexOf lpjenkinsHashPtr (setChunk lhtbl.table newbucket key) key)) newbucket =
          after := ⟨_, rfl⟩
      have relinks : Relinks (fun _ => True) (setChunk lhtbl.table newbucket key) after := by
        rw [← afterIs]
        exact link_front_relinks trivial rfl
      have fuel : after.fuel = lhtbl.table.fuel := relinks.steady.fuel
      have freshNow : grants.answers.Fresh after :=
        relinks.fresh ⟨fresh.memory.segment, fresh.memory.directory⟩
      rw [afterIs] at linked
      have bin : binAt lhtbl.table (bindexOf lpjenkinsHashPtr lhtbl.table key) =
          binAt (setChunk lhtbl.table newbucket key)
            (bindexOf lpjenkinsHashPtr (setChunk lhtbl.table newbucket key) key) := rfl
      simp only [lphashInsert, fetch_bucket_eq ndebug holds.shape, fetched, ok_bind, chosen]
      rw [bin, afterIs]
      have room : (push held key newbucket).length < after.fuel := by
        rw [fuel]
        exact ample
      apply (expand_check_holds ndebug linked room freshNow
        (Grants.not_refused granted)).bind
      intro result spec
      obtain ⟨kept, steady, succeeded⟩ := spec
      refine ⟨succeeded, steady.fuel.trans fuel, push held key newbucket, kept, ?_⟩
      have old : held.map (fun entry => (entry.1, lhtbl.value entry.2)) = held.map fun entry =>
          (entry.1, Function.update lhtbl.value newbucket value entry.2) := by
        apply List.map_congr_left
        intro entry member
        rw [Function.update_of_ne (absent entry member)]
      rw [push, push, List.map_cons]
      dsimp only
      rw [Function.update_self, old]

theorem perform_spec (op : Op) (represents : Represents lhtbl entries)
    (ample : entries.length + 1 < lhtbl.table.fuel) (fresh : grants.Fresh lhtbl)
    (granted : grants.Granted) :
    Ensures (fun result => result.1 = (specStep entries op).1 ∧
        Represents result.2 (specStep entries op).2 ∧ result.2.table.fuel = lhtbl.table.fuel)
      (DirectoryMax (lphashBuild ndebug)) (perform ndebug lhtbl op grants) := by
  obtain ⟨held, holds, same⟩ := represents
  have length : entries.length = held.length := by
    rw [same, List.length_map]
  have room : held.length < lhtbl.table.fuel := by omega
  have tolerated : ∀ fault, Unavoidable (lphashBuild ndebug) grants.answers fault →
      DirectoryMax (lphashBuild ndebug) fault := by
    intro fault failed
    cases failed with
    | directoryLengthMax debug => exact ⟨debug, rfl⟩
    | nullDirectory refused => exact absurd refused granted.2.2
  cases op with
  | insert key value =>
      apply (insert_spec ndebug holds (by omega) fresh granted).bind
      intro result spec
      obtain ⟨succeeded, fuel, represents⟩ := spec
      rw [← same] at represents
      exact ⟨congrArg Reply.inserted succeeded, represents, fuel⟩
  | lookup key =>
      rw [perform, lookup_spec ndebug holds room, ok_bind]
      refine ⟨?_, ⟨held, holds, same⟩, rfl⟩
      show Reply.found _ = .found ((stack entries key).headD 0)
      rw [same, stack_map]
  | delete key =>
      rw [perform, delete_eq ndebug holds.shape, bind_assoc]
      apply ((delete_spec (lphashBuild ndebug) key holds room fresh.memory).weaken
        (fun _ spec => spec) tolerated).bind
      intro result spec
      obtain ⟨kept, steady, found, _⟩ := spec
      refine ⟨?_, ⟨pop held key, kept, ?_⟩, steady.fuel⟩
      · show Reply.deleted result.1 = .deleted (stack entries key ≠ [])
        rw [Reply.deleted.injEq, Bool.eq_iff_iff, found, decide_eq_true_iff, same, stack_map,
          ne_eq, ne_eq, List.map_eq_nil_iff]
      · show pop entries key = _
        rw [same, pop_map]
  | deleteAll key =>
      rw [perform, delete_all_eq ndebug holds.shape, bind_assoc]
      apply ((delete_all_spec (lphashBuild ndebug) key holds room fresh.memory).weaken
        (fun _ spec => spec) tolerated).bind
      intro result spec
      obtain ⟨kept, steady, purged⟩ := spec
      refine ⟨?_, ⟨popAll held key, kept, ?_⟩, steady.fuel⟩
      · show Reply.purged result.1 = .purged (stack entries key).length
        rw [purged, same, stack_map, List.length_map]
      · show popAll entries key = _
        rw [same, pop_all_map]

theorem spec_run_concat (ops : List Op) (op : Op) :
    specRun (ops ++ [op]) = ((specRun ops).1 ++ [(specStep (specRun ops).2 op).1],
      (specStep (specRun ops).2 op).2) := by
  simp [specRun]

theorem spec_run_length (ops : List Op) : (specRun ops).2.length ≤ ops.length := by
  induction ops using List.reverseRecOn with
  | nil => exact Nat.le_refl 0
  | append_singleton ops op ih =>
      rw [spec_run_concat, List.length_append, List.length_singleton]
      cases op with
      | insert key value => exact Nat.succ_le_succ ih
      | lookup key => exact Nat.le_succ_of_le ih
      | delete key => exact Nat.le_succ_of_le (Nat.le_trans List.length_eraseP_le ih)
      | deleteAll key => exact Nat.le_succ_of_le (Nat.le_trans (List.length_filter_le _ _) ih)

theorem init_represents (fuel : Nat) (bucket : BucketPtr → Bucket) (value : BucketPtr → Value)
    (directory : DirectoryPtr) (seg : SegmentPtr) :
    Represents (initLphash fuel bucket value directory seg) [] :=
  ⟨[], init_holds lpjenkinsHashPtr fuel bucket directory seg, rfl⟩

theorem run_represents {start after : Lphash} {ops : List Op} {replies : List Reply}
    (represents : Represents start []) (run : Run ndebug start ops replies after)
    (ample : ops.length < start.table.fuel) :
    replies = (specRun ops).1 ∧ Represents after (specRun ops).2 ∧
      after.table.fuel = start.table.fuel := by
  induction run with
  | start => exact ⟨rfl, represents, rfl⟩
  | @next ops replies before after op grants reply _ fresh granted result ih =>
      rw [List.length_append, List.length_singleton] at ample
      obtain ⟨same, kept, fuel⟩ := ih (Nat.lt_of_succ_lt ample)
      have shorter := spec_run_length ops
      have spec := (perform_spec ndebug op kept (by omega) fresh granted).value result
      rw [spec_run_concat, same]
      exact ⟨congrArg (fun last => (specRun ops).1 ++ [last]) spec.1, spec.2.1,
        spec.2.2.trans fuel⟩

/-- In every run whose allocations succeed the replies, the values of every key
and the census are those of the keyed stack, and so is the next reply. -/
theorem lphash_keyed_stack (fuel : Nat) (bucket : BucketPtr → Bucket) (value : BucketPtr → Value)
    (directory : DirectoryPtr) (seg : SegmentPtr) (ops : List Op) (replies : List Reply)
    (after : Lphash) (run : Run ndebug (initLphash fuel bucket value directory seg) ops replies after)
    (ample : ops.length + 1 < fuel) :
    replies = (specRun ops).1 ∧
      (∀ key, valuesOf after key = stack (specRun ops).2 key) ∧
      after.table.count = (specRun ops).2.length ∧
      ∀ op grants, grants.Fresh after → grants.Granted →
        Ensures (fun result => result.1 = (specStep (specRun ops).2 op).1)
          (DirectoryMax (lphashBuild ndebug)) (perform ndebug after op grants) := by
  obtain ⟨same, represents, sameFuel⟩ := run_represents ndebug
    (init_represents fuel bucket value directory seg) run (Nat.lt_of_succ_lt ample)
  have shorter := spec_run_length ops
  have enough : (specRun ops).2.length + 1 < after.table.fuel := by
    rw [sameFuel]
    exact Nat.lt_of_le_of_lt (Nat.succ_le_succ shorter) ample
  refine ⟨same, ?_, ?_, ?_⟩
  · intro key
    obtain ⟨held, holds, shape⟩ := represents
    have length : (specRun ops).2.length = held.length := by
      rw [shape, List.length_map]
    rw [valuesOf, holds.stack_of (by omega), shape, stack_map]
  · obtain ⟨held, holds, shape⟩ := represents
    rw [holds.count, shape, List.length_map]
  · intro op grants fresh granted
    apply (perform_spec ndebug op represents enough fresh granted).weaken
    · intro result spec
      exact spec.1
    · intro fault allowed
      exact allowed

theorem exists_grants (represents : Represents lhtbl entries)
    (ample : entries.length ≤ lhtbl.table.fuel) (fewer : entries.length + 1 < 2 ^ 64) :
    ∃ grants : Grants, grants.Granted ∧ grants.Fresh lhtbl := by
  obtain ⟨held, holds, same⟩ := represents
  have length : entries.length = held.length := by
    rw [same, List.length_map]
  obtain ⟨answers, granted, memory⟩ := holds.shape.granted_answers
  have card : (held.map fun entry => entry.2).toFinset.card <
      (Finset.Icc 1 (held.length + 1)).card := by
    have most := List.toFinset_card_le (held.map fun entry => entry.2)
    rw [List.length_map] at most
    rw [Nat.card_Icc]
    omega
  obtain ⟨bucket, inRange, unused⟩ := Finset.exists_mem_notMem_of_card_lt_card card
  have range := Finset.mem_Icc.mp inRange
  have word : bucket < 2 ^ 64 := Nat.lt_of_le_of_lt range.2 (by omega)
  refine ⟨⟨some bucket, answers.segment, answers.directory⟩,
    ⟨Option.some_ne_none _, granted.1, granted.2⟩, memory, ?_⟩
  intro other chosen
  cases chosen
  refine ⟨⟨range.1, word⟩, ?_⟩
  intro key member
  rw [holds.stack_of (by omega), mem_stack] at member
  exact unused (List.mem_toFinset.mpr (List.mem_map.mpr ⟨_, member, rfl⟩))

section

variable {fuel : Nat} {buckets : BucketPtr → Bucket} {values : BucketPtr → Value}
variable {directory : DirectoryPtr} {seg : SegmentPtr}

/-- A run in the build of the replay program can always go on. -/
theorem Run.exists_next {ops : List Op} {replies : List Reply} (op : Op)
    (run : Run true (initLphash fuel buckets values directory seg) ops replies lhtbl)
    (ample : ops.length + 1 < fuel) (words : fuel < 2 ^ 64) :
    ∃ reply after, Run true (initLphash fuel buckets values directory seg) (ops ++ [op])
      (replies ++ [reply]) after := by
  have begins : Represents (initLphash fuel buckets values directory seg) [] :=
    init_represents fuel buckets values directory seg
  have given : (initLphash fuel buckets values directory seg).table.fuel = fuel := rfl
  obtain ⟨_, represents, same⟩ := run_represents true begins run (by omega)
  have shorter := spec_run_length ops
  obtain ⟨grants, granted, fresh⟩ := exists_grants represents (by omega) (by omega)
  obtain ⟨⟨reply, after⟩, result, _⟩ := (perform_spec true op represents (by omega) fresh
    granted).returns fun _ fault => absurd fault.1 (by decide)
  exact ⟨reply, after, run.next fresh granted result⟩

theorem exists_run (ops : List Op) (ample : ops.length < fuel) (words : fuel < 2 ^ 64) :
    ∃ replies after, Run true (initLphash fuel buckets values directory seg) ops replies after := by
  induction ops using List.reverseRecOn with
  | nil => exact ⟨[], _, Run.start⟩
  | append_singleton ops op ih =>
      rw [List.length_append, List.length_singleton] at ample
      obtain ⟨replies, table, run⟩ := ih (Nat.lt_of_succ_lt ample)
      obtain ⟨reply, after, longer⟩ := run.exists_next op ample words
      exact ⟨_, after, longer⟩

end

theorem expand_check_bins {answers : Answers} (shape : Shape table) (fresh : answers.Fresh table)
    (granted : ¬Refused table answers) (room : table.bincount < lphashCfg.bincountMax) :
    Ensures (fun result => result.2.count = table.count ∧ result.2.bincount =
        if lphashCfg.maxLoad < lphashLoad table then table.bincount + 1 else table.bincount)
      (fun _ => True) (lphashExpandCheck ndebug table answers) := by
  unfold lphashExpandCheck
  by_cases crowded : lphashCfg.maxLoad < lphashLoad table
  · have both : table.bincount < lphashCfg.bincountMax ∧ lphashLoad table > lphashCfg.maxLoad :=
      ⟨room, crowded⟩
    rw [if_pos both, if_pos crowded]
    apply (expand_table_enlarged (lphashBuild ndebug) shape fresh room).weaken
    · intro result numbers
      have enlarged := (numbers.1 granted).1
      exact ⟨enlarged.count, enlarged.bincount⟩
    · exact fun _ _ => trivial
  · have calm : ¬(table.bincount < lphashCfg.bincountMax ∧
        lphashLoad table > lphashCfg.maxLoad) := fun both => crowded both.2
    rw [if_neg calm, if_neg crowded]
    exact ⟨rfl, rfl⟩

/-- An insertion whose allocations succeed splits a bin when it leaves more than
`max_load` buckets a bin. -/
theorem insert_bins (shape : Shape lhtbl.table) (fresh : grants.Fresh lhtbl)
    (granted : grants.Granted) (room : lhtbl.table.bincount < lphashCfg.bincountMax)
    (small : lhtbl.table.count + 1 < 2 ^ 64) :
    Ensures (fun result => result.2.table.count = lhtbl.table.count + 1 ∧
        result.2.table.bincount =
          if 5 < (lhtbl.table.count + 1) / lhtbl.table.bincount then lhtbl.table.bincount + 1
          else lhtbl.table.bincount)
      (fun _ => True) (lphashInsert ndebug lhtbl key value grants) := by
  have fetched : metadataFetchBucket (lphashBuild ndebug) lhtbl.table key =
      .ok (binAt lhtbl.table (bindexOf lpjenkinsHashPtr lhtbl.table key)) :=
    shape.fetch_bucket (lphashBuild ndebug) key
  have bound := shape.bindex_of_lt lpjenkinsHashPtr key
  cases chosen : grants.bucket with
  | none => exact absurd chosen granted.1
  | some newbucket =>
      obtain ⟨linked, linkedIs⟩ : ∃ linked, linked = linkFront
        (setChunk lhtbl.table newbucket key)
        (binAt lhtbl.table (bindexOf lpjenkinsHashPtr lhtbl.table key)) newbucket := ⟨_, rfl⟩
      have relinks : Relinks (· < lhtbl.table.bincount) (setChunk lhtbl.table newbucket key)
          linked := by
        rw [linkedIs]
        exact link_front_relinks bound rfl
      have count : linked.count = lhtbl.table.count + 1 := by
        rw [linkedIs]
        exact Nat.mod_eq_of_lt small
      have bincount : linked.bincount = lhtbl.table.bincount := relinks.bincount
      have load : lphashLoad linked = (lhtbl.table.count + 1) / lhtbl.table.bincount := by
        rw [lphashLoad, metadataLoad, count, bincount]
      have linkedShape := relinks.shape (fun _ inUse => inUse) (shape.refill rfl)
      have freshNow : grants.answers.Fresh linked :=
        relinks.fresh ⟨fresh.memory.segment, fresh.memory.directory⟩
      simp only [lphashInsert, fetch_bucket_eq ndebug shape, fetched, ok_bind, chosen, ← linkedIs]
      apply (expand_check_bins ndebug linkedShape freshNow (Grants.not_refused granted)
        (by rw [bincount]; exact room)).bind
      intro result numbers
      rw [load, bincount, count] at numbers
      exact numbers

theorem inserts_bins {fuel : Nat} {buckets : BucketPtr → Bucket} {values : BucketPtr → Value}
    {directory : DirectoryPtr} {seg : SegmentPtr} {ops : List Op} {replies : List Reply}
    {after : Lphash} (run : Run ndebug (initLphash fuel buckets values directory seg) ops replies after)
    (inserts : ∀ op ∈ ops, ∃ key value, op = .insert key value) (bound : ops.length ≤ 2 ^ 20)
    (ample : ops.length < fuel) :
    after.table.count = ops.length ∧ after.table.bincount = max 256 (ops.length / 6 + 1) := by
  induction run with
  | start => exact ⟨rfl, rfl⟩
  | @next ops replies before after op grants reply earlier fresh granted result ih =>
      rw [List.length_append, List.length_singleton] at bound ample ⊢
      have begins := init_represents fuel buckets values directory seg
      obtain ⟨_, ⟨held, holds, _⟩, _⟩ :=
        run_represents ndebug begins earlier (Nat.lt_of_succ_lt ample)
      obtain ⟨count, bincount⟩ := ih
        (fun op member => inserts op (List.mem_append_left _ member)) (by omega) (by omega)
      obtain ⟨key, value, same⟩ := inserts op (List.mem_append_right _ (List.mem_singleton_self _))
      subst same
      have room : before.table.bincount < lphashCfg.bincountMax := by
        have max : lphashCfg.bincountMax = 4294967295 := rfl
        omega
      cases inserted : lphashInsert ndebug before key value grants with
      | error fault =>
          rw [perform, inserted] at result
          cases result
      | ok outcome =>
          rw [perform, inserted] at result
          cases result
          obtain ⟨newCount, newBins⟩ :=
            (insert_bins ndebug holds.shape fresh granted room (by omega)).value inserted
          refine ⟨by omega, ?_⟩
          have fuller : 6 ≤ (ops.length + 1) / before.table.bincount ↔
              6 * before.table.bincount ≤ ops.length + 1 := Nat.le_div_iff_mul_le (by omega)
          rw [newBins, count]
          split_ifs with crowded
          · have many := fuller.mp crowded
            omega
          · have few := mt fuller.mpr crowded
            omega

/-- Three values for each of 512 keys; the last of the insertions splits the first bin. -/
def tripleOps : List Op :=
  (List.range 1536).map fun index => .insert (index % 512 + 1) (index + 1)

theorem triple_keyed_stack : ∃ replies table reply after,
    Run true (initLphash 2048 (fun _ => ⟨0, none⟩) (fun _ => 0) 5 6) tripleOps replies table ∧
      table.table.bincount = 257 ∧
      Run true (initLphash 2048 (fun _ => ⟨0, none⟩) (fun _ => 0) 5 6) (tripleOps ++ [.delete 256])
        (replies ++ [reply]) after ∧
      reply = .deleted true ∧ valuesOf after 256 = [768, 256] ∧
      valuesOf after 512 = [1536, 1024, 512] ∧ after.table.count = 1535 := by
  have short : tripleOps.length = 1536 := by simp [tripleOps]
  obtain ⟨replies, table, run⟩ :
      ∃ replies table, Run true (initLphash 2048 (fun _ => ⟨0, none⟩) (fun _ => 0) 5 6) tripleOps
        replies table := exists_run tripleOps (by omega) (by decide)
  obtain ⟨reply, after, longer⟩ := run.exists_next (.delete 256) (by omega) (by decide)
  obtain ⟨_, split⟩ := inserts_bins true run (by
    intro op member
    obtain ⟨index, _, same⟩ := List.mem_map.mp member
    exact ⟨_, _, same.symm⟩) (by omega) (by omega)
  obtain ⟨replied, values, count, _⟩ := lphash_keyed_stack true 2048 (fun _ => ⟨0, none⟩)
    (fun _ => 0) 5 6 _ _ after longer (by rw [List.length_append]; decide +kernel)
  have last := congrArg List.getLast? replied
  rw [spec_run_concat, List.getLast?_concat, List.getLast?_concat] at last
  refine ⟨replies, table, reply, after, run, ?_, longer, ?_, ?_, ?_, ?_⟩
  · omega
  · rw [Option.some.inj last]
    decide +kernel
  · rw [values]
    decide +kernel
  · rw [values]
    decide +kernel
  · rw [count]
    decide +kernel

end SriGlibcMalloc.ReplayTable
