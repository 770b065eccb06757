import SriGlibcMalloc.EntryPoints.Confined

/-!
# When the reserve suffices

Calls of several threads in one arena that leave any number of records from none to
five. Where a path takes more than the others leave, one of these calls enters
`new_chunkinfoptr` with an empty reserve; so the condition under which the reserve
suffices is exact.
-/

namespace SriGlibcMalloc.EntryPoints

set_option autoImplicit false

def sharedWorld : World := startedWorld 7

/-- What a thread wants when the pools are dry and `mmap` fails: the turns of a path. The
rounds of `_int_malloc` are over at the thirteenth question. -/
def wants (path : Path) (question : Question) (clock : Nat) : Bool :=
  match question with
  | .growHeap => !path.newHeap
  | .topLargeEnough => 13 ≤ clock
  | .aboveMmapThreshold | .morecore | .endOfMemoryKnown | .oldTop => true
  | .newHeap | .oldTopLeft | .nextIsNew | .misaligned | .remainder => true
  | question => granted question

def hungryEnv (me : ThreadId) (path : Path) : Env :=
  workingEnv me fun question clock => wants path question clock && path.allows question

instance (world : World) : Decidable world.Hooked :=
  inferInstanceAs (Decidable (_ ∨ _ ∨ _ ∨ _))

/-- While the thread waits at the site, another one makes a call, in a world where the
call returns and leaves the hooks off. -/
def Env.interrupted (env : Env) (site : Site) (made : PublicCall) (other : Env) : Env :=
  { env with
    others := fun there _ _ world =>
      if there = site then
        match (made.run other).run ⟨world, 0⟩ with
        | .ok (_, next) => if next.world.Hooked then world else next.world
        | .error _ => world
      else world }

def alignedCall : PublicCall := .memalign 64 100

/-- A path on which the aligned call leaves so many records; the last two find two. -/
def leavingPath : Nat → Path
  | 5 => ⟨false, false, false, true, false, true, true⟩
  | 4 => ⟨false, true, false, true, false, true, false⟩
  | 3 => ⟨false, true, false, true, false, true, true⟩
  | 2 => ⟨false, true, true, true, false, true, true⟩
  | 1 => ⟨false, false, false, true, false, false, false⟩
  | _ => ⟨false, false, false, true, false, false, true⟩

def sixthEnv : Env := hungryEnv 6 (leavingPath 2)

def fourthEnv (left : Nat) : Env :=
  if 2 ≤ left then hungryEnv 4 (leavingPath left)
  else (hungryEnv 4 (leavingPath left)).interrupted (.mmapRefused (some 1)) alignedCall sixthEnv

def secondEnv (path : Path) (left : Nat) : Env :=
  (hungryEnv 2 path).interrupted (.mmapRefused (some 1)) alignedCall (fourthEnv left)

def largeCall : CallKind → PublicCall
  | .malloc => .malloc 60000000
  | .realloc => .realloc 64 60000000
  | .memalign => .memalign 64 60000000
  | .other => .mallinfo

/-- Whether the call needs a record that the reserve of the arena does not have. -/
def PublicCall.runsDry (made : PublicCall) (env : Env) (state : State) (a : ArenaId) : Bool :=
  match (made.run env).run state with
  | .ok _ => false
  | .error why => why = .reserveEmpty a

variable {kind : CallKind} {path : Path} {left : Nat} {env other : Env}
variable {made : PublicCall} {state : State} {waiting : ThreadId → Prop}

theorem runs_dry_eq {a : ArenaId} (dry : made.runsDry env state a = true) :
    (made.run env).run state = .error (.reserveEmpty a) := by
  unfold PublicCall.runsDry at dry
  cases ran : (made.run env).run state with
  | ok result => simp [ran] at dry
  | error why =>
      rw [ran] at dry
      rw [of_decide_eq_true dry]

theorem dry_confined {a : ArenaId} (dry : made.runsDry env state a = true)
    (still : made.runsDry (env.confined .full left) state a = true)
    (follows : ∀ question clock, env.answer question clock = true →
      path.allows question = true) :
    made.Confined env state path left := by
  have same : env.confined path left = env.confined .full left := by
    unfold Env.confined
    congr 1
    funext question clock
    cases answer : env.answer question clock with
    | false => simp
    | true =>
        rw [follows question clock answer]
        cases question <;> rfl
  rw [PublicCall.Confined, same, runs_dry_eq dry, runs_dry_eq still]

theorem working_others (me : ThreadId) (answer : Question → Nat → Bool) (site : Site)
    (a : ArenaId) (clock : Nat) (world : World) :
    Evolves (fun _ => True) waiting world ((workingEnv me answer).others site a clock world) :=
  Evolves.done waiting world

theorem interrupted_run {site : Site} (apart : ¬waiting other.me)
    (others : ∀ site a clock world, Evolves (fun _ => True) (fun t => t = other.me ∨ waiting t)
      world (other.others site a clock world))
    (there : Site) (a : ArenaId) (clock : Nat) (world : World) :
    Evolves (fun _ => True) waiting world
      ((env.interrupted site made other).others there a clock world) := by
  unfold Env.interrupted
  dsimp only
  split
  next =>
    cases ran : (made.run other).run ⟨world, 0⟩ with
    | error why => exact Evolves.done waiting world
    | ok result =>
        obtain ⟨⟨⟩, next⟩ := result
        dsimp only
        split
        next => exact Evolves.done waiting world
        next =>
          exact Evolves.call waiting other made 0 world next next.world apart trivial others ran
            (Evolves.done waiting next.world)
  next => exact Evolves.done waiting world

theorem interrupted_unhooked {site there : Site} {a : ArenaId} {clock : Nat} {world : World}
    (unhooked : ¬world.Hooked) :
    ¬((env.interrupted site made other).others there a clock world).Hooked := by
  unfold Env.interrupted
  dsimp only
  split
  next =>
    split
    next =>
      split
      next => exact unhooked
      next quiet => exact quiet
    next => exact unhooked
  next => exact unhooked

theorem interrupted_in_run {site : Site} (unchecked : env.checkAction = none)
    (refills : ∀ clock, env.answer .replenishing clock = true)
    (apart : other.me ≠ env.me)
    (others : ∀ site a clock world,
      Evolves (fun _ => True) (fun t => t = other.me ∨ t = env.me ∨ False)
        world (other.others site a clock world)) :
    (env.interrupted site made other).InRun (fun _ => False) sharedWorld where
  apart := id
  others := interrupted_run (by rintro (same | impossible); exact apart same; exact impossible) others
  reached := started_world_run trivial 7 (Nat.le_refl 7)
  off := {
    now := by decide +kernel
    unchecked := by
      intro action set
      rw [show (env.interrupted site made other).checkAction = none from unchecked] at set
      cases set
    later := fun _ _ _ _ _ unhooked => interrupted_unhooked unhooked }
  refills := refills

theorem hungry_follows (me : ThreadId) {question : Question} {clock : Nat}
    (yes : (hungryEnv me path).answer question clock = true) : path.allows question = true :=
  (Bool.and_eq_true _ _ ▸ yes).2

theorem fourth_others (left : Nat) (site : Site) (a : ArenaId) (clock : Nat) (world : World) :
    Evolves (fun _ => True) (fun t => t = (fourthEnv left).me ∨ t = 2 ∨ False) world
      ((fourthEnv left).others site a clock world) := by
  unfold fourthEnv
  split
  next => exact working_others 4 _ site a clock world
  next =>
    apply interrupted_run
    · change ¬(6 = 4 ∨ 6 = 2 ∨ False)
      decide
    · exact working_others 6 _

theorem second_in_run (left : Nat) : (secondEnv path left).InRun (fun _ => False) sharedWorld := by
  apply interrupted_in_run rfl
  · intro clock
    exact rfl
  · unfold fourthEnv
    split
    next =>
      change 4 ≠ 2
      decide
    next =>
      change 4 ≠ 2
      decide
  · exact fourth_others left

def fallsShort (kind : CallKind) (path : Path) : Bool :=
  let cost := path.heapCost + kind.topCost path
  let env := secondEnv path (cost - 1)
  cost = 0 || ((largeCall kind).runsDry env ⟨sharedWorld, 0⟩ 1 &&
    (List.range cost).all fun left =>
      (largeCall kind).runsDry (env.confined .full left) ⟨sharedWorld, 0⟩ 1)

theorem malloc_falls_short : ∀ newHeap oldTopLeft topLargeEnough : Bool,
    (oldTopLeft → newHeap) →
    fallsShort .malloc ⟨false, newHeap, oldTopLeft, topLargeEnough, false, false, false⟩ = true := by
  decide +kernel

theorem realloc_falls_short : ∀ newHeap oldTopLeft topLargeEnough merged : Bool,
    (oldTopLeft → newHeap) → (merged → topLargeEnough) →
    fallsShort .realloc ⟨false, newHeap, oldTopLeft, topLargeEnough, merged, false, merged⟩ =
      true := by
  decide +kernel

theorem memalign_falls_short : ∀ newHeap oldTopLeft topLargeEnough misaligned remainder : Bool,
    (oldTopLeft → newHeap) → (misaligned → topLargeEnough) → (remainder → topLargeEnough) →
    fallsShort .memalign
      ⟨false, newHeap, oldTopLeft, topLargeEnough, false, misaligned, remainder⟩ = true := by
  decide +kernel

theorem turns_fall_short (allocating : kind ≠ .other) :
    fallsShort kind (kind.turns path) = true := by
  cases kind with
  | other => exact absurd rfl allocating
  | malloc =>
      have dry := malloc_falls_short path.newHeap (path.newHeap && path.oldTopLeft)
        path.topLargeEnough Bool.and_elim_left
      simpa [CallKind.turns] using dry
  | realloc =>
      have dry := realloc_falls_short path.newHeap (path.newHeap && path.oldTopLeft)
        path.topLargeEnough (path.topLargeEnough && (path.nextIsNew && path.remainder))
        Bool.and_elim_left Bool.and_elim_left
      simpa [CallKind.turns] using dry
  | memalign =>
      have dry := memalign_falls_short path.newHeap (path.newHeap && path.oldTopLeft)
        path.topLargeEnough (path.topLargeEnough && path.misaligned)
        (path.topLargeEnough && path.remainder) Bool.and_elim_left Bool.and_elim_left
        Bool.and_elim_left
      simpa [CallKind.turns] using dry

/-- A call of the kind that keeps to the path and runs dry, although the others leave so
many records. -/
def RunsDry (kind : CallKind) (path : Path) (left : Nat) : Prop :=
  ∃ (made : PublicCall) (env : Env) (a : ArenaId), made.kind = kind ∧
    env.InRun (fun _ => False) sharedWorld ∧ made.Confined env ⟨sharedWorld, 0⟩ path left ∧
    (made.run env).run ⟨sharedWorld, 0⟩ = .error (.reserveEmpty a)

theorem large_call_kind (allocating : kind ≠ .other) : (largeCall kind).kind = kind := by
  cases kind with
  | other => exact absurd rfl allocating
  | _ => rfl

theorem runs_dry_after_refusal (allocating : kind ≠ .other)
    (short : left < path.heapCost + kind.topCost path) : RunsDry kind path left := by
  have dry : fallsShort kind (kind.turns path) = true := turns_fall_short allocating
  simp only [fallsShort, turns_cost, Bool.or_eq_true, Bool.and_eq_true, decide_eq_true_eq,
    List.all_eq_true, List.mem_range] at dry
  have both := dry.resolve_left (Nat.ne_zero_of_lt short)
  refine ⟨largeCall kind, secondEnv (kind.turns path) _, 1, large_call_kind allocating,
    second_in_run _, ?_, runs_dry_eq both.1⟩
  apply dry_confined both.1 (both.2 left short)
  intro question clock yes
  exact turns_allows (hungry_follows 2 yes)

def seventhEnv : Env := hungryEnv 7 (leavingPath 2)

def fifthEnv : Env :=
  (mappingEnv 5).interrupted (.sysmalloc (some mainArena)) alignedCall seventhEnv

def thirdEnv : Env :=
  (mappingEnv 3).interrupted (.sysmalloc (some mainArena)) alignedCall fifthEnv

def firstEnv : Env :=
  (mappingEnv 1).interrupted (.sysmalloc (some mainArena)) alignedCall thirdEnv

theorem first_in_run : firstEnv.InRun (fun _ => False) sharedWorld := by
  apply interrupted_in_run rfl
  · intro clock
    exact rfl
  · decide
  · apply interrupted_run
    · change ¬(5 = 3 ∨ 5 = 1 ∨ False)
      decide
    · apply interrupted_run
      · change ¬(7 = 5 ∨ 7 = 3 ∨ 7 = 1 ∨ False)
        decide
      · exact working_others 7 _

theorem first_runs_dry : alignedCall.runsDry firstEnv ⟨sharedWorld, 0⟩ mainArena = true := by
  decide +kernel

theorem first_confined_dry :
    alignedCall.runsDry (firstEnv.confined .full 0) ⟨sharedWorld, 0⟩ mainArena = true := by
  decide +kernel

theorem mapping_follows (me : ThreadId) (mmap : path.mmap = true)
    (misaligned : path.misaligned = true) {question : Question} {clock : Nat}
    (yes : (mappingEnv me).answer question clock = true) : path.allows question = true := by
  cases question with
  | mmap => exact mmap
  | misaligned => exact misaligned
  | _ => first | rfl | cases yes

theorem runs_dry_after_mapping (mmap : path.mmap = true) (misaligned : path.misaligned = true) :
    RunsDry .memalign path 0 := by
  refine ⟨alignedCall, firstEnv, mainArena, rfl, first_in_run, ?_, runs_dry_eq first_runs_dry⟩
  apply dry_confined first_runs_dry first_confined_dry
  intro question clock yes
  have answered : (mappingEnv 1).answer question clock = true := yes
  exact mapping_follows 1 mmap misaligned answered

theorem mapped_need_pos {left : Nat} (short : left < kind.mappedNeed path) :
    kind = .memalign ∧ path.mmap = true ∧ path.misaligned = true ∧ left = 0 := by
  unfold CallKind.mappedNeed CallKind.mappedCost at short
  cases kind <;> cases mapped : path.mmap <;> cases aligned : path.misaligned <;>
    simp_all

/-- Four records are enough for a large request that needs a new heap. -/
example : (largeCall .malloc).returns (secondEnv ⟨false, true, true, true, false, false, false⟩ 4)
    ⟨sharedWorld, 0⟩ = true := by
  decide +kernel

end SriGlibcMalloc.EntryPoints
