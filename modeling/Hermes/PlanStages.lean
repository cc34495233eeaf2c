import Hermes.PlanWiring

/-! What each operator of a plan adds to the wiring of its producers: one stage, in which everything is fed
exactly when the operators that take the producers' output get any. -/
namespace Hermes.Transform
open Hermes.Library Hermes.Library.Wiring
open Hermes.Prephysical (AggregatePrePFunctionType)
open Hermes.Serialization (Values PhysicalOp POpType)
variable {V : Values} {E : Type}

/-- Scans and the operators of the caches complete on their own or after a request, the others once their producers have. -/
def completesOnProducers : POpType → Bool
  | .s3Get => false
  | .s3Select => false
  | .fileScan => false
  | .cacheLoad => false
  | .cacheHandler => false
  | _ => true

def Waits (pOp : PhysicalOp V) : Prop := completesOnProducers pOp.type = true

/-- A result that is a wiring of the ids, with operators to connect to and everything fed under the conditions. -/
def Transformed (ids : List Nat) (feeds fed : Prop) (res : TransRes V) : Prop :=
  ∃ w, res = built w ∧ Sound ids w ∧ (w.ends ≠ [] ↔ feeds) ∧ (w.Fed Waits ↔ fed)

section Edges
variable {producers consumers : List Nat} {start size i j consumer : Nat}

theorem mem_manyToOne : (i,j) ∈ manyToOne producers consumer ↔ i ∈ producers ∧ j = consumer := by
  rw [manyToOne,List.mem_map]
  constructor
  · rintro ⟨producer,inside,same⟩
    obtain ⟨rfl,rfl⟩ := Prod.mk.inj same
    exact ⟨inside,rfl⟩
  · rintro ⟨inside,rfl⟩
    exact ⟨i,inside,rfl⟩

theorem mem_manyToMany : (i,j) ∈ manyToMany producers consumers ↔ i ∈ producers ∧ j ∈ consumers := by
  rw [manyToMany,List.mem_flatMap]
  constructor
  · rintro ⟨producer,inside,edge⟩
    obtain ⟨consumer,inside',same⟩ := List.mem_map.mp edge
    obtain ⟨rfl,rfl⟩ := Prod.mk.inj same
    exact ⟨inside,inside'⟩
  · rintro ⟨inside,inside'⟩
    exact ⟨i,inside,List.mem_map_of_mem inside'⟩

theorem manyToOne_eq (producers : List Nat) (consumer : Nat) :
    manyToOne producers consumer = manyToMany producers (List.range' consumer 1) := by
  rw [manyToMany,manyToOne,List.map_eq_flatMap]
  rfl

theorem mem_flatMap_manyToOne : (i,j) ∈ consumers.flatMap (manyToOne producers) ↔
    (i,j) ∈ manyToMany producers consumers := by
  rw [mem_manyToMany,List.mem_flatMap]
  constructor
  · rintro ⟨consumer,inside,edge⟩
    obtain ⟨source,rfl⟩ := mem_manyToOne.mp edge
    exact ⟨source,inside⟩
  · exact fun inside => ⟨j,inside.2,mem_manyToOne.mpr ⟨inside.1,rfl⟩⟩

theorem of_mem_zip_range (edge : (i,j) ∈ producers.zip (List.range' start size)) : i ∈ producers ∧ start ≤ j ∧
    j < start+size := by
  obtain ⟨first,second⟩ := List.of_mem_zip edge
  exact ⟨first,List.mem_range'_1.mp second⟩

theorem exists_from_range (known : producers.length = size) (inside : i ∈ producers) :
    ∃ j, (i,j) ∈ producers.zip (List.range' start size) :=
  exists_mem_zip_left (known.trans List.length_range'.symm) inside

theorem exists_into_range (known : producers.length = size) (low : start ≤ j) (high : j < start+size) :
    ∃ i, (i,j) ∈ producers.zip (List.range' start size) :=
  exists_mem_zip_right (known.trans List.length_range'.symm) (List.mem_range'_1.mpr ⟨low,high⟩)

end Edges

section Stages
variable {ids ids' : List Nat} {feeds fed feeds' fed' : Prop} {w : Wiring (PhysicalOp V)} {fresh : List (PhysicalOp V)}
  {edges : List (Nat × Nat)} {ends : List Nat} {id : Nat}

theorem fed_stage_waits (layered : w.Layered) (new : Stage w fresh edges ends) (waits : ∀ pOp ∈ fresh, Waits pOp) :
    (w.stage fresh edges ends).Fed Waits ↔ w.Fed Waits ∧ ∀ k < fresh.length, ∃ j, (j,w.nodes.length+k) ∈ edges := by
  rw [fed_stage layered new]
  refine and_congr_right fun _ => ⟨?_,?_⟩
  · intro each k bound
    exact each k fresh[k] (List.getElem?_eq_getElem bound) (waits _ (List.getElem_mem bound))
  · intro each k pOp known _
    exact each k (List.getElem?_eq_some_iff.mp known).1

theorem Transformed.stage (sound : Sound ids w) (new : Stage w fresh edges ends) (made : Fresh id fresh)
    (other : id ∉ ids) (waits : ∀ pOp ∈ fresh, Waits pOp) (feeds_iff : ends ≠ [] ↔ feeds)
    (fed_iff : (w.Fed Waits ∧ ∀ k < fresh.length, ∃ j, (j,w.nodes.length+k) ∈ edges) ↔ fed) :
    Transformed (id::ids) feeds fed (⟨ends,edges.foldl connect ((built w).allPOps ++ fresh)⟩ : TransRes V) :=
  ⟨w.stage fresh edges ends,(built_stage sound.layered).symm,sound.stage new made other,feeds_iff,
    (fed_stage_waits sound.layered new waits).trans fed_iff⟩

theorem stage_fanIn (layered : w.Layered) (some' : fresh ≠ []) :
    Stage w fresh (manyToMany w.ends (List.range' w.nodes.length fresh.length))
    (List.range' w.nodes.length fresh.length) where
  target i j edge := List.mem_range'_1.mp (mem_manyToMany.mp edge).2
  source := ⟨fun i => i,fun i j edge => Or.inl (mem_manyToMany.mp edge).1⟩
  taken i inside := by
    refine ⟨w.nodes.length,mem_manyToMany.mpr ⟨inside,List.mem_range'_1.mpr ⟨Nat.le_refl _,?_⟩⟩⟩
    have positive := List.length_pos_of_ne_nil some'
    omega
  ends_nodup := List.nodup_range'
  mem_ends i := by
    rw [List.mem_range'_1]
    refine (and_iff_left_of_imp ?_).symm
    intro late j edge
    have early := ((layered.mem_ends i).mp (mem_manyToMany.mp edge).1).1
    omega

theorem fed_fanIn (some' : fresh ≠ []) : (∀ k < fresh.length, ∃ j, (j,w.nodes.length+k) ∈
    manyToMany w.ends (List.range' w.nodes.length fresh.length)) ↔ w.ends ≠ [] := by
  simp only [mem_manyToMany,List.mem_range'_1]
  constructor
  · intro each
    obtain ⟨j,inside,_⟩ := each 0 (List.length_pos_of_ne_nil some')
    exact List.ne_nil_of_mem inside
  · intro nonempty k bound
    obtain ⟨j,inside⟩ := List.exists_mem_of_ne_nil _ nonempty
    exact ⟨j,inside,by omega⟩

theorem stage_each (layered : w.Layered) (size : fresh.length = w.ends.length) :
    Stage w fresh (w.ends.zip (List.range' w.nodes.length w.ends.length))
    (List.range' w.nodes.length w.ends.length) where
  target i j edge := by
    rw [size]
    exact (of_mem_zip_range edge).2
  source := ⟨fun i => i,fun i j edge => Or.inl (of_mem_zip_range edge).1⟩
  taken i inside := exists_from_range rfl inside
  ends_nodup := List.nodup_range'
  mem_ends i := by
    rw [List.mem_range'_1,size]
    refine (and_iff_left_of_imp ?_).symm
    intro late j edge
    have early := ((layered.mem_ends i).mp (of_mem_zip_range edge).1).1
    omega

theorem stage_reduce (layered : w.Layered) (size : fresh.length = w.ends.length+1) :
    Stage w fresh (manyToOne (List.range' w.nodes.length w.ends.length) (w.nodes.length+w.ends.length) ++
      w.ends.zip (List.range' w.nodes.length w.ends.length)) [w.nodes.length+w.ends.length] where
  target i j edge := by
    rcases List.mem_append.mp edge with edge | edge
    · have target := (mem_manyToOne.mp edge).2
      omega
    · have target := (of_mem_zip_range edge).2
      omega
  source := by
    refine ⟨fun i => i,fun i j edge => ?_⟩
    rcases List.mem_append.mp edge with edge | edge
    · obtain ⟨source,target⟩ := mem_manyToOne.mp edge
      have bounds := List.mem_range'_1.mp source
      exact Or.inr ⟨bounds.1,by omega,show i < j by omega⟩
    · exact Or.inl (of_mem_zip_range edge).1
  taken i inside := by
    obtain ⟨j,edge⟩ := exists_from_range rfl inside
    exact ⟨j,List.mem_append_right _ edge⟩
  ends_nodup := List.nodup_singleton _
  mem_ends i := by
    rw [List.mem_singleton,size]
    constructor
    · rintro rfl
      refine ⟨by omega,fun j edge => ?_⟩
      rcases List.mem_append.mp edge with edge | edge
      · have bounds := List.mem_range'_1.mp (mem_manyToOne.mp edge).1
        omega
      · have early := ((layered.mem_ends _).mp (of_mem_zip_range edge).1).1
        omega
    · rintro ⟨bounds,free⟩
      by_contra differ
      refine free _ (List.mem_append_left _ (mem_manyToOne.mpr ⟨List.mem_range'_1.mpr ⟨bounds.1,?_⟩,rfl⟩))
      omega

theorem fed_reduce (size : fresh.length = w.ends.length+1) : (∀ k < fresh.length, ∃ j, (j,w.nodes.length+k) ∈
    manyToOne (List.range' w.nodes.length w.ends.length) (w.nodes.length+w.ends.length) ++
      w.ends.zip (List.range' w.nodes.length w.ends.length)) ↔ w.ends ≠ [] := by
  constructor
  · intro each
    obtain ⟨j,edge⟩ := each w.ends.length (by omega)
    rcases List.mem_append.mp edge with edge | edge
    · have bounds := List.mem_range'_1.mp (mem_manyToOne.mp edge).1
      exact List.ne_nil_of_length_pos (by omega)
    · exact List.ne_nil_of_mem (of_mem_zip_range edge).1
  · intro nonempty k bound
    by_cases last : k = w.ends.length
    · subst last
      have positive := List.length_pos_of_ne_nil nonempty
      exact ⟨w.nodes.length,List.mem_append_left _ (mem_manyToOne.mpr ⟨List.mem_range'_1.mpr ⟨Nat.le_refl _,by omega⟩,rfl⟩)⟩
    · obtain ⟨j,edge⟩ := @exists_into_range w.ends w.nodes.length _ _ rfl (Nat.le_add_right w.nodes.length k) (by omega)
      exact ⟨j,List.mem_append_right _ edge⟩

/-- Edges that take what the producers send to the consumers, some of it through operators behind the producers. -/
structure Feeds (edges : List (Nat × Nat)) (producers consumers : List Nat) (start size : Nat) : Prop where
  along : ∀ i j, (i,j) ∈ edges → i ∈ producers ∧ (j ∈ consumers ∨ start ≤ j ∧ j < start+size) ∨
    (start ≤ i ∧ i < start+size) ∧ j ∈ consumers
  taken : ∀ i ∈ producers, ∃ j, (i,j) ∈ edges
  out : ∀ i, start ≤ i → i < start+size → ∃ j, (i,j) ∈ edges
  into : ∀ j, start ≤ j → j < start+size → ∃ i, (i,j) ∈ edges
  fed : ∀ j ∈ consumers, (∃ i, (i,j) ∈ edges) ↔ producers ≠ []

section Feeds
variable {producers consumers : List Nat} {start : Nat}

theorem Feeds.none : Feeds [] [] consumers start 0 where
  along _ _ edge := absurd edge List.not_mem_nil
  taken _ inside := absurd inside List.not_mem_nil
  out i low high := absurd high (by omega)
  into j low high := absurd high (by omega)
  fed _ _ := iff_of_false (fun ⟨_,edge⟩ => List.not_mem_nil edge) fun wrong => wrong rfl

theorem Feeds.direct (some' : consumers ≠ []) : Feeds (manyToMany producers consumers) producers consumers start 0 where
  along i j edge := by
    obtain ⟨source,target⟩ := mem_manyToMany.mp edge
    exact Or.inl ⟨source,Or.inl target⟩
  taken i inside := by
    obtain ⟨j,inside'⟩ := List.exists_mem_of_ne_nil _ some'
    exact ⟨j,mem_manyToMany.mpr ⟨inside,inside'⟩⟩
  out i low high := absurd high (by omega)
  into j low high := absurd high (by omega)
  fed j inside := by
    constructor
    · rintro ⟨i,edge⟩
      exact List.ne_nil_of_mem (mem_manyToMany.mp edge).1
    · intro nonempty
      obtain ⟨i,inside'⟩ := List.exists_mem_of_ne_nil _ nonempty
      exact ⟨i,mem_manyToMany.mpr ⟨inside',inside⟩⟩

theorem Feeds.through (some' : consumers ≠ []) (before : ∀ j ∈ consumers, j < start) :
    Feeds (manyToMany (List.range' start producers.length) consumers ++
      producers.zip (List.range' start producers.length))
      producers consumers start producers.length where
  along i j edge := by
    rcases List.mem_append.mp edge with edge | edge
    · obtain ⟨source,target⟩ := mem_manyToMany.mp edge
      exact Or.inr ⟨List.mem_range'_1.mp source,target⟩
    · obtain ⟨source,target⟩ := of_mem_zip_range edge
      exact Or.inl ⟨source,Or.inr target⟩
  taken i inside := by
    obtain ⟨j,edge⟩ := exists_from_range rfl inside
    exact ⟨j,List.mem_append_right _ edge⟩
  out i low high := by
    obtain ⟨j,inside⟩ := List.exists_mem_of_ne_nil _ some'
    exact ⟨j,List.mem_append_left _ (mem_manyToMany.mpr ⟨List.mem_range'_1.mpr ⟨low,high⟩,inside⟩)⟩
  into j low high := by
    obtain ⟨i,edge⟩ := exists_into_range rfl low high
    exact ⟨i,List.mem_append_right _ edge⟩
  fed j inside := by
    have early := before j inside
    constructor
    · rintro ⟨i,edge⟩
      rcases List.mem_append.mp edge with edge | edge
      · have bounds := List.mem_range'_1.mp (mem_manyToMany.mp edge).1
        exact List.ne_nil_of_length_pos (by omega)
      · exact List.ne_nil_of_mem (of_mem_zip_range edge).1
    · intro nonempty
      have positive := List.length_pos_of_ne_nil nonempty
      exact ⟨start,List.mem_append_left _ (mem_manyToMany.mpr ⟨List.mem_range'_1.mpr ⟨Nat.le_refl _,by omega⟩,inside⟩)⟩

end Feeds

/-- Hubs with edges among themselves, which two groups of the open ends feed. -/
structure Hubs (w : Wiring (PhysicalOp V)) (hubs : Nat) (among first second : List (Nat × Nat))
    (producers producers' consumers consumers' : List Nat) (size size' : Nat) (ends : List Nat) : Prop where
  open' : ∀ i, i ∈ w.ends ↔ i ∈ producers ∨ i ∈ producers'
  feeds : Feeds first producers consumers (w.nodes.length+hubs) size
  feeds' : Feeds second producers' consumers' (w.nodes.length+hubs+size) size'
  targets : ∀ j ∈ consumers, w.nodes.length ≤ j ∧ j < w.nodes.length+hubs
  targets' : ∀ j ∈ consumers', w.nodes.length ≤ j ∧ j < w.nodes.length+hubs
  ordered : ∃ level : Nat → Nat, ∀ i j, (i,j) ∈ among →
    (w.nodes.length ≤ i ∧ i < w.nodes.length+hubs) ∧ (w.nodes.length ≤ j ∧ j < w.nodes.length+hubs) ∧ level i < level j
  ends_nodup : ends.Nodup
  mem_ends : ∀ i, i ∈ ends ↔ (w.nodes.length ≤ i ∧ i < w.nodes.length+hubs) ∧ ∀ j, (i,j) ∉ among

section Hubs
variable {hubs size size' : Nat} {among first second : List (Nat × Nat)}
    {producers producers' consumers consumers' : List Nat}

theorem Hubs.stage (around : Hubs w hubs among first second producers producers' consumers consumers' size size' ends)
    (layered : w.Layered) (total : fresh.length = hubs+size+size')
    (all : ∀ i j, (i,j) ∈ edges ↔ (i,j) ∈ among ∨ (i,j) ∈ first ∨ (i,j) ∈ second) : Stage w fresh edges ends where
  target i j edge := by
    obtain ⟨level,climbs⟩ := around.ordered
    rcases (all i j).mp edge with edge | edge | edge
    · have bounds := climbs i j edge
      omega
    · rcases around.feeds.along i j edge with ⟨_,target | target⟩ | ⟨_,target⟩
      · have bounds := around.targets j target
        omega
      · omega
      · have bounds := around.targets j target
        omega
    · rcases around.feeds'.along i j edge with ⟨_,target | target⟩ | ⟨_,target⟩
      · have bounds := around.targets' j target
        omega
      · omega
      · have bounds := around.targets' j target
        omega
  source := by
    obtain ⟨level,climbs⟩ := around.ordered
    refine ⟨fun i => if i < w.nodes.length+hubs then level i+1 else 0,fun i j edge => ?_⟩
    beta_reduce
    rcases (all i j).mp edge with edge | edge | edge
    · obtain ⟨source,target,up⟩ := climbs i j edge
      rw [if_pos source.2,if_pos target.2]
      exact Or.inr ⟨source.1,by omega,by omega⟩
    · rcases around.feeds.along i j edge with ⟨source,_⟩ | ⟨source,target⟩
      · exact Or.inl ((around.open' i).mpr (Or.inl source))
      · rw [if_neg (by omega),if_pos (around.targets j target).2]
        exact Or.inr ⟨by omega,by omega,by omega⟩
    · rcases around.feeds'.along i j edge with ⟨source,_⟩ | ⟨source,target⟩
      · exact Or.inl ((around.open' i).mpr (Or.inr source))
      · rw [if_neg (by omega),if_pos (around.targets' j target).2]
        exact Or.inr ⟨by omega,by omega,by omega⟩
  taken i inside := by
    rcases (around.open' i).mp inside with left | right
    · obtain ⟨j,edge⟩ := around.feeds.taken i left
      exact ⟨j,(all i j).mpr (Or.inr (Or.inl edge))⟩
    · obtain ⟨j,edge⟩ := around.feeds'.taken i right
      exact ⟨j,(all i j).mpr (Or.inr (Or.inr edge))⟩
  ends_nodup := around.ends_nodup
  mem_ends i := by
    rw [around.mem_ends i,total]
    have early : ∀ i, i ∈ producers ∨ i ∈ producers' → i < w.nodes.length :=
      fun i open' => ((layered.mem_ends i).mp ((around.open' i).mpr open')).1
    constructor
    · rintro ⟨bounds,free⟩
      refine ⟨by omega,fun j edge => ?_⟩
      rcases (all i j).mp edge with edge | edge | edge
      · exact free j edge
      · rcases around.feeds.along i j edge with ⟨source,_⟩ | ⟨source,_⟩
        · have before := early i (Or.inl source)
          omega
        · omega
      · rcases around.feeds'.along i j edge with ⟨source,_⟩ | ⟨source,_⟩
        · have before := early i (Or.inr source)
          omega
        · omega
    · rintro ⟨bounds,free⟩
      refine ⟨⟨bounds.1,?_⟩,fun j edge => free j ((all i j).mpr (Or.inl edge))⟩
      by_contra late
      by_cases left : i < w.nodes.length+hubs+size
      · obtain ⟨j,edge⟩ := around.feeds.out i (by omega) left
        exact free j ((all i j).mpr (Or.inr (Or.inl edge)))
      · obtain ⟨j,edge⟩ := around.feeds'.out i (by omega) (by omega)
        exact free j ((all i j).mpr (Or.inr (Or.inr edge)))

theorem Hubs.fed_iff (around : Hubs w hubs among first second producers producers' consumers consumers' size size' ends)
    (total : fresh.length = hubs+size+size')
    (all : ∀ i j, (i,j) ∈ edges ↔ (i,j) ∈ among ∨ (i,j) ∈ first ∨ (i,j) ∈ second) :
    (∀ k < fresh.length, ∃ j, (j,w.nodes.length+k) ∈ edges) ↔ ∀ j, w.nodes.length ≤ j → j < w.nodes.length+hubs →
      (∃ i, (i,j) ∈ among) ∨ j ∈ consumers ∧ producers ≠ [] ∨ j ∈ consumers' ∧ producers' ≠ [] := by
  have hub : ∀ j, w.nodes.length ≤ j → j < w.nodes.length+hubs → ((∃ i, (i,j) ∈ edges) ↔
      (∃ i, (i,j) ∈ among) ∨ j ∈ consumers ∧ producers ≠ [] ∨ j ∈ consumers' ∧ producers' ≠ []) := by
    intro j low high
    constructor
    · rintro ⟨i,edge⟩
      rcases (all i j).mp edge with edge | edge | edge
      · exact Or.inl ⟨i,edge⟩
      · have target : j ∈ consumers := by
          rcases around.feeds.along i j edge with ⟨_,target | target⟩ | ⟨_,target⟩
          · exact target
          · omega
          · exact target
        exact Or.inr (Or.inl ⟨target,(around.feeds.fed j target).mp ⟨i,edge⟩⟩)
      · have target : j ∈ consumers' := by
          rcases around.feeds'.along i j edge with ⟨_,target | target⟩ | ⟨_,target⟩
          · exact target
          · omega
          · exact target
        exact Or.inr (Or.inr ⟨target,(around.feeds'.fed j target).mp ⟨i,edge⟩⟩)
    · rintro (⟨i,edge⟩ | ⟨target,nonempty⟩ | ⟨target,nonempty⟩)
      · exact ⟨i,(all i j).mpr (Or.inl edge)⟩
      · obtain ⟨i,edge⟩ := (around.feeds.fed j target).mpr nonempty
        exact ⟨i,(all i j).mpr (Or.inr (Or.inl edge))⟩
      · obtain ⟨i,edge⟩ := (around.feeds'.fed j target).mpr nonempty
        exact ⟨i,(all i j).mpr (Or.inr (Or.inr edge))⟩
  rw [total]
  constructor
  · intro each j low high
    obtain ⟨k,rfl⟩ := Nat.exists_eq_add_of_le low
    exact (hub _ low high).mp (each k (by omega))
  · intro each k bound
    by_cases isHub : k < hubs
    · exact (hub _ (Nat.le_add_right _ _) (by omega)).mpr (each _ (Nat.le_add_right _ _) (by omega))
    · by_cases left : k < hubs+size
      · obtain ⟨i,edge⟩ := around.feeds.into (w.nodes.length+k) (by omega) (by omega)
        exact ⟨i,(all i _).mpr (Or.inr (Or.inl edge))⟩
      · obtain ⟨i,edge⟩ := around.feeds'.into (w.nodes.length+k) (by omega) (by omega)
        exact ⟨i,(all i _).mpr (Or.inr (Or.inr edge))⟩

theorem Transformed.around (sound : Sound ids w)
    (around : Hubs w hubs among first second producers producers' consumers consumers' size size' ends)
    (total : fresh.length = hubs+size+size')
    (all : ∀ i j, (i,j) ∈ edges ↔ (i,j) ∈ among ∨ (i,j) ∈ first ∨ (i,j) ∈ second)
    (made : Fresh id fresh) (other : id ∉ ids) (waits : ∀ pOp ∈ fresh, Waits pOp) (feeds_iff : ends ≠ [] ↔ feeds)
    (fed_iff : (w.Fed Waits ∧ ∀ j, w.nodes.length ≤ j → j < w.nodes.length+hubs →
      (∃ i, (i,j) ∈ among) ∨ j ∈ consumers ∧ producers ≠ [] ∨ j ∈ consumers' ∧ producers' ≠ []) ↔ fed) :
    Transformed (id::ids) feeds fed (⟨ends,edges.foldl connect ((built w).allPOps ++ fresh)⟩ : TransRes V) := by
  refine Transformed.stage sound (around.stage sound.layered total all) made other waits feeds_iff ?_
  rw [around.fed_iff total all]
  exact fed_iff

end Hubs

theorem hubs_all {hubs size size' : Nat} {first second : List (Nat × Nat)} {producers producers' : List Nat}
    (open' : ∀ i, i ∈ w.ends ↔ i ∈ producers ∨ i ∈ producers')
    (taken : Feeds first producers (List.range' w.nodes.length hubs) (w.nodes.length+hubs) size)
    (taken' : Feeds second producers' (List.range' w.nodes.length hubs) (w.nodes.length+hubs+size) size') :
    Hubs w hubs [] first second producers producers' (List.range' w.nodes.length hubs)
    (List.range' w.nodes.length hubs) size size'
      (List.range' w.nodes.length hubs) where
  open' := open'
  feeds := taken
  feeds' := taken'
  targets _ := List.mem_range'_1.mp
  targets' _ := List.mem_range'_1.mp
  ordered := ⟨fun i => i,fun _ _ edge => absurd edge List.not_mem_nil⟩
  ends_nodup := List.nodup_range'
  mem_ends _ := List.mem_range'_1.trans (and_iff_left fun _ => List.not_mem_nil).symm

theorem fed_all {hubs start : Nat} {producers producers' : List Nat} (positive : 0 < hubs) :
    (∀ j, start ≤ j → j < start+hubs → (∃ i, (i,j) ∈ ([] : List (Nat × Nat))) ∨
      j ∈ List.range' start hubs ∧ producers ≠ [] ∨ j ∈ List.range' start hubs ∧ producers' ≠ []) ↔
      producers ≠ [] ∨ producers' ≠ [] := by
  constructor
  · intro each
    rcases each start (Nat.le_refl _) (by omega) with ⟨i,edge⟩ | ⟨_,nonempty⟩ | ⟨_,nonempty⟩
    · exact absurd edge List.not_mem_nil
    · exact Or.inl nonempty
    · exact Or.inr nonempty
  · intro nonempty j low high
    have inside := List.mem_range'_1.mpr ⟨low,high⟩
    exact Or.inr (nonempty.imp (fun left => ⟨inside,left⟩) fun right => ⟨inside,right⟩)

theorem hubs_paired {degree size size' : Nat} {first second : List (Nat × Nat)} {producers producers' : List Nat}
    (open' : ∀ i, i ∈ w.ends ↔ i ∈ producers ∨ i ∈ producers')
    (taken : Feeds first producers (List.range' w.nodes.length degree) (w.nodes.length+(degree+degree)) size)
    (taken' : Feeds second producers' (List.range' (w.nodes.length+degree) degree) (w.nodes.length+(degree+degree)+size) size') :
    Hubs w (degree+degree) ((List.range' w.nodes.length degree).zip (List.range' (w.nodes.length+degree) degree)) first second
      producers producers' (List.range' w.nodes.length degree) (List.range' (w.nodes.length+degree) degree) size size'
      (List.range' (w.nodes.length+degree) degree) where
  open' := open'
  feeds := taken
  feeds' := taken'
  targets j inside := by
    have bounds := List.mem_range'_1.mp inside
    omega
  targets' j inside := by
    have bounds := List.mem_range'_1.mp inside
    omega
  ordered := by
    refine ⟨fun i => i,fun i j edge => ?_⟩
    obtain ⟨source,target⟩ := of_mem_zip_range edge
    have bounds := List.mem_range'_1.mp source
    exact ⟨by omega,by omega,show i < j by omega⟩
  ends_nodup := List.nodup_range'
  mem_ends i := by
    constructor
    · intro inside
      have bounds := List.mem_range'_1.mp inside
      refine ⟨by omega,fun j edge => ?_⟩
      have source := List.mem_range'_1.mp (of_mem_zip_range edge).1
      omega
    · rintro ⟨bounds,free⟩
      refine List.mem_range'_1.mpr ⟨?_,by omega⟩
      by_contra early
      obtain ⟨j,edge⟩ := @exists_from_range (List.range' w.nodes.length degree)
        (w.nodes.length+degree) degree i List.length_range'
        (List.mem_range'_1.mpr ⟨bounds.1,by omega⟩)
      exact free j edge

theorem fed_paired {degree start : Nat} {producers producers' : List Nat} (positive : 0 < degree) :
    (∀ j, start ≤ j → j < start+(degree+degree) →
      (∃ i, (i,j) ∈ (List.range' start degree).zip (List.range' (start+degree) degree)) ∨
        j ∈ List.range' start degree ∧ producers ≠ [] ∨ j ∈ List.range' (start+degree) degree ∧ producers' ≠ []) ↔
      producers ≠ [] := by
  constructor
  · intro each
    rcases each start (Nat.le_refl _) (by omega) with ⟨i,edge⟩ | ⟨_,nonempty⟩ | ⟨inside,_⟩
    · have target := (of_mem_zip_range edge).2
      omega
    · exact nonempty
    · have bounds := List.mem_range'_1.mp inside
      omega
  · intro nonempty j low high
    by_cases build : j < start+degree
    · exact Or.inr (Or.inl ⟨List.mem_range'_1.mpr ⟨low,build⟩,nonempty⟩)
    · exact Or.inl (exists_into_range List.length_range' (by omega) (by omega))

end Stages

section Names
variable {kind : String} {id : Nat} {type : POpType} {projectColumnNames : List String} {res : TransRes V}
    {text : String}
  (transformer : PrePToPTransformer E)

theorem number_inj {n m : Nat} (same : text ++ toString n = text ++ toString m) : n = m := by
  have lists := congrArg String.toList same
  rw [String.toList_append,String.toList_append] at lists
  have digits : (Nat.repr n).toList = (Nat.repr m).toList := List.append_cancel_left lists
  rw [Nat.toList_repr,Nat.toList_repr] at digits
  exact toDigits_injective digits

theorem rest_inj {rest rest' : String} (same : text ++ rest = text ++ rest') : rest = rest' := by
  have lists := congrArg String.toList same
  rw [String.toList_append,String.toList_append] at lists
  exact String.toList_injective (List.append_cancel_left lists)

theorem reduce_not_number (n : Nat) : "-" ++ toString n ≠ "-Reduce" := by
  intro same
  have lists := congrArg String.toList (@rest_inj "-" (toString n) "Reduce" same)
  have digits : Nat.toDigits 10 n = "Reduce".toList := Nat.toList_repr.symm.trans lists
  have inside : 'R' ∈ Nat.toDigits 10 n := by
    rw [digits]
    decide
  exact absurd (Nat.isDigit_of_mem_toDigits (by decide) (by decide) inside) (by decide)

theorem length_eachPOps :
    (transformer.eachPOps id projectColumnNames kind type res : List (PhysicalOp V)).length =
    res.upConnPOps.length := by
  rw [PrePToPTransformer.eachPOps,List.length_map,List.length_zipIdx]

theorem length_parallelPOps :
    (transformer.parallelPOps id projectColumnNames kind type text : List (PhysicalOp V)).length =
    transformer.degree := by
  rw [PrePToPTransformer.parallelPOps,List.length_map,List.length_range]

theorem length_behindPOps {allPOps : List (PhysicalOp V)} {upConnPOps : List Nat} :
    (transformer.behindPOps id kind type allPOps upConnPOps).length = upConnPOps.length := by
  rw [PrePToPTransformer.behindPOps,List.length_map]

theorem ofKind_eachPOps : OfKind kind id (transformer.eachPOps id projectColumnNames kind type res : List (PhysicalOp V)) := by
  intro pOp inside
  obtain ⟨⟨upConnPOp,i⟩,_,rfl⟩ := List.mem_map.mp inside
  exact ⟨⟨rfl,rfl⟩,_,rfl⟩

theorem ofKind_parallelPOps :
    OfKind kind id (transformer.parallelPOps id projectColumnNames kind type text : List (PhysicalOp V)) := by
  intro pOp inside
  obtain ⟨i,_,rfl⟩ := List.mem_map.mp inside
  exact ⟨⟨rfl,rfl⟩,_,rfl⟩

theorem ofKind_behindPOps {allPOps : List (PhysicalOp V)} {upConnPOps : List Nat} :
    OfKind kind id (transformer.behindPOps id kind type allPOps upConnPOps) := by
  intro pOp inside
  obtain ⟨i,_,rfl⟩ := List.mem_map.mp inside
  exact ⟨⟨rfl,rfl⟩,_,rfl⟩

theorem made_single {rest : String} {nodeId : Int} (plain : Plain kind) :
    Fresh id ([transformer.make (named kind id rest) type projectColumnNames nodeId] : List (PhysicalOp V)) where
  bare pOp inside := by
    rw [List.mem_singleton.mp inside]
    exact ⟨rfl,rfl⟩
  names := List.nodup_singleton _
  tagged pOp inside := by
    rw [List.mem_singleton.mp inside]
    exact ⟨kind,rest,plain,rfl⟩

theorem made_eachPOps (plain : Plain kind) :
    Fresh id (transformer.eachPOps id projectColumnNames kind type res : List (PhysicalOp V)) := by
  refine (ofKind_eachPOps transformer).made plain ?_
  have numbers : ((transformer.eachPOps id projectColumnNames kind type res : List (PhysicalOp V)).map fun pOp => pOp.name) =
      (res.upConnPOps.zipIdx.map Prod.snd).map fun i => named kind id ("-" ++ toString i) := by
    rw [PrePToPTransformer.eachPOps,List.map_map,List.map_map]
    rfl
  rw [numbers,List.zipIdx_map_snd]
  exact List.Nodup.map (fun i j same => number_inj (named_inj plain plain same).2.2) List.nodup_range'

theorem made_parallelPOps (plain : Plain kind) :
    Fresh id (transformer.parallelPOps id projectColumnNames kind type text : List (PhysicalOp V)) := by
  refine (ofKind_parallelPOps transformer).made plain ?_
  rw [PrePToPTransformer.parallelPOps,List.map_map]
  exact List.nodup_range.map fun i j same => number_inj (named_inj plain plain same).2.2

theorem made_behindPOps {ids : List Nat} {w : Wiring (PhysicalOp V)} {upConnPOps : List Nat} (sound : Sound ids w)
    (plain : Plain kind) (inside : ∀ i ∈ upConnPOps, i < w.nodes.length) (distinct : upConnPOps.Nodup) :
    Fresh id (transformer.behindPOps id kind type (built w).allPOps upConnPOps) := by
  refine (ofKind_behindPOps transformer).made plain ?_
  rw [PrePToPTransformer.behindPOps,List.map_map]
  refine List.Nodup.map_on ?_ distinct
  intro i known j known' same
  have names := rest_inj (named_inj plain plain same).2.2
  rw [deref_built,deref_built] at names
  exact deref_inj sound.names (inside i known) (inside j known') names

theorem waits_eachPOps (waits : completesOnProducers type = true) :
    ∀ pOp ∈ (transformer.eachPOps id projectColumnNames kind type res : List (PhysicalOp V)), Waits pOp := by
  intro pOp inside
  obtain ⟨⟨upConnPOp,i⟩,_,rfl⟩ := List.mem_map.mp inside
  exact waits

theorem waits_parallelPOps (waits : completesOnProducers type = true) :
    ∀ pOp ∈ (transformer.parallelPOps id projectColumnNames kind type text : List (PhysicalOp V)), Waits pOp := by
  intro pOp inside
  obtain ⟨i,_,rfl⟩ := List.mem_map.mp inside
  exact waits

theorem waits_behindPOps {allPOps : List (PhysicalOp V)} {upConnPOps : List Nat}
    (waits : completesOnProducers type = true) :
    ∀ pOp ∈ transformer.behindPOps id kind type allPOps upConnPOps, Waits pOp := by
  intro pOp inside
  obtain ⟨i,_,rfl⟩ := List.mem_map.mp inside
  exact waits

end Names

theorem connectOneToOne_ok {producers consumers : List Nat} {allPOps : List (PhysicalOp V)}
    (size : producers.length = consumers.length) :
    connectOneToOne producers consumers allPOps = .ok ((producers.zip consumers).foldl connect allPOps) := by
  rw [connectOneToOne,if_neg (not_not_intro size)]

section Operators
variable {ids ids' : List Nat} {feeds fed feeds' fed' : Prop} {res res' : TransRes V} {id : Nat}
    {projectColumnNames : List String}
  {kind : String} {type : POpType} (transformer : PrePToPTransformer E)

theorem transformToOne_spec (transformed : Transformed ids feeds fed res) (other : id ∉ ids) (plain : Plain kind)
    (waits : completesOnProducers type = true) :
    Transformed (id::ids) True (fed ∧ feeds) (transformer.transformToOne id projectColumnNames kind type res) := by
  obtain ⟨w,rfl,sound,feeds_iff,fed_iff⟩ := transformed
  let fresh : List (PhysicalOp V) := [transformer.make (named kind id "") type projectColumnNames 0]
  have some' : fresh ≠ [] := List.cons_ne_nil _ _
  have result : transformer.transformToOne id projectColumnNames kind type (built w) =
      ⟨List.range' w.nodes.length fresh.length,
        (manyToMany w.ends (List.range' w.nodes.length fresh.length)).foldl connect ((built w).allPOps ++ fresh)⟩ := by
    rw [PrePToPTransformer.transformToOne,length_built,connectManyToOne,manyToOne_eq]
    rfl
  rw [result]
  refine Transformed.stage sound (stage_fanIn sound.layered some') (made_single transformer plain) other ?_ ?_ ?_
  · intro pOp inside
    rw [List.mem_singleton.mp inside]
    exact waits
  · exact iff_of_true (List.cons_ne_nil _ _) trivial
  · rw [fed_fanIn some',fed_iff,feeds_iff]

theorem transformEach_spec (transformed : Transformed ids feeds fed res) (other : id ∉ ids) (plain : Plain kind)
    (waits : completesOnProducers type = true) :
    ∃ res', transformer.transformEach id projectColumnNames kind type res = .ok res' ∧
    Transformed (id::ids) feeds fed res' := by
  obtain ⟨w,rfl,sound,feeds_iff,fed_iff⟩ := transformed
  have size : (transformer.eachPOps id projectColumnNames kind type (built w)).length = w.ends.length :=
      length_eachPOps transformer
  refine ⟨_,?_,Transformed.stage sound (stage_each sound.layered size) (made_eachPOps transformer plain) other
    (waits_eachPOps transformer waits) ?_ ?_⟩
  · rw [PrePToPTransformer.transformEach,length_built,connectOneToOne_ok List.length_range'.symm]
    rfl
  · rw [← feeds_iff,Ne,List.range'_eq_nil_iff,List.length_eq_zero_iff]
  · rw [fed_iff]
    refine and_iff_left ?_
    intro k bound
    rw [size] at bound
    exact exists_into_range rfl (Nat.le_add_right _ _) (Nat.add_lt_add_left bound _)

theorem transformAggregate_spec {aggOutputColumnNames : List String} {functions : List AggregatePrePFunctionType}
    (transformed : Transformed ids feeds fed res) (other : id ∉ ids) :
    ∃ res', transformer.transformAggregate id projectColumnNames aggOutputColumnNames functions res = .ok res' ∧
      Transformed (id::ids) True (fed ∧ feeds) res' := by
  have plain : Plain "Aggregate" := by decide
  have known := transformed
  obtain ⟨w,rfl,sound,feeds_iff,fed_iff⟩ := known
  let columnNames :=
    if w.ends.length > 1 then PrePToPTransformer.parallelAggProjectColumnNames aggOutputColumnNames functions else projectColumnNames
  by_cases one : w.ends.length = 1
  · have nonempty : feeds := feeds_iff.mp (List.ne_nil_of_length_pos (by omega))
    obtain ⟨res',ok,each⟩ := @transformEach_spec V E ids feeds fed (built w) id columnNames "Aggregate" .aggregate
      transformer transformed other plain rfl
    refine ⟨res',ok ▸ if_pos one,?_⟩
    rw [eq_true nonempty] at each ⊢
    rwa [and_true]
  · let aggReducePOp : PhysicalOp V := transformer.make (named "Aggregate" id "-Reduce") .aggregate projectColumnNames 0
    let fresh := transformer.eachPOps id columnNames "Aggregate" .aggregate (built w) ++ [aggReducePOp]
    have size : fresh.length = w.ends.length+1 := by
      rw [List.length_append,length_eachPOps]
      rfl
    have made : Fresh id fresh := by
      refine (made_eachPOps transformer plain).append (made_single transformer plain) ?_
      intro pOp inside reduce inside' same
      obtain ⟨⟨upConnPOp,i⟩,_,rfl⟩ := List.mem_map.mp inside
      rw [List.mem_singleton.mp inside'] at same
      exact reduce_not_number i (named_inj plain plain same).2.2
    refine ⟨_,?_,Transformed.stage sound (stage_reduce sound.layered size) made other ?_
      (iff_of_true (List.cons_ne_nil _ _) trivial) ?_⟩
    · rw [PrePToPTransformer.transformAggregate,upConnPOps_built,if_neg one,length_built]
      show (connectOneToOne w.ends (List.range' w.nodes.length w.ends.length) _ >>= fun allPOps => .ok _) = _
      rw [connectOneToOne_ok List.length_range'.symm,connectManyToOne,← List.foldl_append,List.append_assoc]
      rfl
    · intro pOp inside
      rcases List.mem_append.mp inside with each | reduce
      · exact waits_eachPOps transformer rfl pOp each
      · rw [List.mem_singleton.mp reduce]
        rfl
    · rw [fed_reduce size,fed_iff,feeds_iff]

theorem some_range {start size : Nat} (positive : 0 < size) : List.range' start size ≠ [] := by
  rw [Ne,List.range'_eq_nil_iff]
  omega

theorem made_behind_ends {w : Wiring (PhysicalOp V)} (sound : Sound ids w) (plain : Plain kind) :
    Fresh id (transformer.behindPOps id kind type (built w).allPOps w.ends) :=
  made_behindPOps transformer sound plain (fun i inside => ((sound.layered.mem_ends i).mp inside).1) sound.layered.ends_nodup

theorem transformGroup_spec (transformed : Transformed ids feeds fed res) (other : id ∉ ids)
    (positive : 0 < transformer.degree) :
    ∃ res', transformer.transformGroup id projectColumnNames res = .ok res' ∧
    Transformed (id::ids) True (fed ∧ feeds) res' := by
  obtain ⟨w,rfl,sound,feeds_iff,fed_iff⟩ := transformed
  let groupPOps := List.range' w.nodes.length transformer.degree
  let parallel : List (PhysicalOp V) := transformer.parallelPOps id projectColumnNames "Group" .group "-"
  have some' : groupPOps ≠ [] := some_range positive
  have open' : ∀ i, i ∈ w.ends ↔ i ∈ w.ends ∨ i ∈ ([] : List Nat) := fun i => (or_iff_left List.not_mem_nil).symm
  have fed_iff' : (w.Fed Waits ∧ ∀ j, w.nodes.length ≤ j → j < w.nodes.length+transformer.degree →
      (∃ i, (i,j) ∈ ([] : List (Nat × Nat))) ∨ j ∈ groupPOps ∧ w.ends ≠ [] ∨ j ∈ groupPOps ∧ ([] : List Nat) ≠ []) ↔
      fed ∧ feeds := by
    rw [fed_all positive,or_iff_left (not_not_intro rfl),fed_iff,feeds_iff]
  by_cases one : transformer.degree = 1
  · have result : transformer.transformGroup id projectColumnNames (built w) =
        .ok ⟨groupPOps,(manyToMany w.ends groupPOps).foldl connect ((built w).allPOps ++ parallel)⟩ := by
      rw [PrePToPTransformer.transformGroup,if_pos one,upConnPOps_built,length_built,connectManyToOne,manyToOne_eq]
      simp only [groupPOps,one]
      rfl
    exact ⟨_,result,Transformed.around sound (hubs_all open' (Feeds.direct some') Feeds.none)
      (length_parallelPOps transformer) (fun i j => by simp [groupPOps])
        (made_parallelPOps transformer (by decide)) other
      (waits_parallelPOps transformer rfl) (iff_of_true some' trivial) fed_iff'⟩
  · let shufflePOps := List.range' (w.nodes.length+transformer.degree) w.ends.length
    let behind := transformer.behindPOps id "Shuffle" .shuffle (built w).allPOps w.ends
    have result : transformer.transformGroup id projectColumnNames (built w) =
        .ok ⟨groupPOps,(manyToMany shufflePOps groupPOps ++ w.ends.zip shufflePOps).foldl connect
          ((built w).allPOps ++ (parallel ++ behind))⟩ := by
      rw [PrePToPTransformer.transformGroup,if_neg one,upConnPOps_built,length_built]
      show (connectOneToOne w.ends shufflePOps _ >>= fun allPOps => .ok _) = _
      rw [connectOneToOne_ok List.length_range'.symm,connectManyToMany,← List.foldl_append,List.append_assoc]
      rfl
    have made : Fresh id (parallel ++ behind) := by
      refine (made_parallelPOps transformer (by decide)).append (made_behind_ends transformer sound (by decide)) ?_
      exact (ofKind_parallelPOps transformer).differ (ofKind_behindPOps transformer) (by decide) (by decide) (by decide)
    have waits : ∀ pOp ∈ parallel ++ behind, Waits pOp := fun pOp inside =>
      (List.mem_append.mp inside).elim (waits_parallelPOps transformer rfl pOp) (waits_behindPOps transformer rfl pOp)
    have total : (parallel ++ behind).length = transformer.degree+w.ends.length+0 := by
      rw [List.length_append,length_parallelPOps,length_behindPOps,Nat.add_zero]
    have taken := @Feeds.through w.ends groupPOps (w.nodes.length+transformer.degree) some'
      fun j inside => (List.mem_range'_1.mp inside).2
    exact ⟨_,result,Transformed.around sound (hubs_all open' taken Feeds.none) total
      (fun i j => by simp [groupPOps,shufflePOps])
      made other waits (iff_of_true some' trivial) fed_iff'⟩

theorem join_producers {left right : Wiring (PhysicalOp V)} (layered : left.Layered) :
    (built left).allPOps ++ (built right).allPOps = (built (left.beside right)).allPOps := by
  rw [built_beside layered]
  rfl

section NestedLoopJoin
variable {left right : Wiring (PhysicalOp V)}

theorem transformNestedLoopJoin_one (layered : left.Layered) (one : transformer.degree = 1) :
    transformer.transformNestedLoopJoin id projectColumnNames (built left) (built right) =
      .ok ⟨List.range' (left.beside right).nodes.length transformer.degree,
        ((List.range' (left.beside right).nodes.length transformer.degree).flatMap (manyToOne left.ends) ++
          manyToOne (right.ends.map (left.nodes.length + ·)) (left.beside right).nodes.length).foldl connect
          ((built (left.beside right)).allPOps ++
            transformer.parallelPOps id projectColumnNames "NestedLoopJoin" .nestedLoopJoin "-")⟩ := by
  rw [PrePToPTransformer.transformNestedLoopJoin,if_pos one,join_producers layered,length_built,length_built,
    upConnPOps_built,upConnPOps_built,List.foldl_append,List.foldl_flatMap]
  rfl

theorem transformNestedLoopJoin_many (layered : left.Layered) (other : (left.beside right).Layered)
    (many : transformer.degree ≠ 1) :
    transformer.transformNestedLoopJoin id projectColumnNames (built left) (built right) =
      .ok ⟨List.range' (left.beside right).nodes.length transformer.degree,
        ((List.range' (left.beside right).nodes.length transformer.degree).flatMap (manyToOne left.ends) ++
          (manyToMany (List.range' ((left.beside right).nodes.length+transformer.degree) (right.ends.map (left.nodes.length + ·)).length)
            (List.range' (left.beside right).nodes.length transformer.degree) ++
          (right.ends.map (left.nodes.length + ·)).zip
            (List.range' ((left.beside right).nodes.length+transformer.degree) (right.ends.map (left.nodes.length + ·)).length))).foldl
          connect ((built (left.beside right)).allPOps ++
            (transformer.parallelPOps id projectColumnNames "NestedLoopJoin" .nestedLoopJoin "-" ++
              transformer.behindPOps id "Split" .split (built (left.beside right)).allPOps (right.ends.map (left.nodes.length + ·))))⟩ := by
  have inside : ∀ i j, (i,j) ∈ (List.range' (left.beside right).nodes.length transformer.degree).flatMap
      (manyToOne left.ends) →
      i < ((built (left.beside right)).allPOps ++
        transformer.parallelPOps id projectColumnNames "NestedLoopJoin" .nestedLoopJoin "-").length ∧
      j < ((built (left.beside right)).allPOps ++
        transformer.parallelPOps id projectColumnNames "NestedLoopJoin" .nestedLoopJoin "-").length := by
    intro i j edge
    obtain ⟨source,target⟩ := mem_manyToMany.mp (mem_flatMap_manyToOne.mp edge)
    have early := ((other.mem_ends i).mp (List.mem_append_left _ source)).1
    have bounds := List.mem_range'_1.mp target
    rw [List.length_append,length_built,length_parallelPOps]
    omega
  rw [PrePToPTransformer.transformNestedLoopJoin,if_neg many,join_producers layered,length_built,length_built,
    upConnPOps_built,upConnPOps_built]
  show (connectOneToOne (right.ends.map (left.nodes.length + ·)) _ _ >>= fun allPOps => .ok _) = _
  rw [connectOneToOne_ok List.length_range'.symm,connectManyToMany,← List.append_assoc (built _).allPOps,
    List.foldl_append,
    List.foldl_append,foldl_connect_append inside,List.foldl_flatMap]
  rfl

end NestedLoopJoin

theorem transformNestedLoopJoin_spec (left : Transformed ids feeds fed res) (right : Transformed ids' feeds' fed' res')
    (apart : ∀ id ∈ ids, id ∉ ids') (other : id ∉ ids ++ ids') (positive : 0 < transformer.degree) :
    ∃ joined, transformer.transformNestedLoopJoin id projectColumnNames res res' = .ok joined ∧
      Transformed (id::(ids ++ ids')) True ((feeds ∨ feeds') ∧ fed ∧ fed') joined := by
  obtain ⟨wl,rfl,soundLeft,feeds_iff,fed_iff⟩ := left
  obtain ⟨wr,rfl,soundRight,feeds_iff',fed_iff'⟩ := right
  have sound := soundLeft.beside soundRight apart
  let joins := List.range' (wl.beside wr).nodes.length transformer.degree
  let rights := wr.ends.map (wl.nodes.length + ·)
  let parallel : List (PhysicalOp V) := transformer.parallelPOps id projectColumnNames "NestedLoopJoin" .nestedLoopJoin "-"
  have some' : joins ≠ [] := some_range positive
  have open' : ∀ i, i ∈ (wl.beside wr).ends ↔ i ∈ wl.ends ∨ i ∈ rights := fun i => List.mem_append
  have someRight : rights ≠ [] ↔ feeds' := by rw [← feeds_iff',Ne,List.map_eq_nil_iff]
  have joined_fed : ((wl.beside wr).Fed Waits ∧ ∀ j, (wl.beside wr).nodes.length ≤ j →
      j < (wl.beside wr).nodes.length+transformer.degree → (∃ i, (i,j) ∈ ([] : List (Nat × Nat))) ∨
        j ∈ joins ∧ wl.ends ≠ [] ∨ j ∈ joins ∧ rights ≠ []) ↔ (feeds ∨ feeds') ∧ fed ∧ fed' := by
    rw [fed_all positive,fed_beside soundLeft.layered,fed_iff,fed_iff',feeds_iff,someRight,and_comm]
  by_cases one : transformer.degree = 1
  · refine ⟨_,transformNestedLoopJoin_one transformer soundLeft.layered one,Transformed.around sound
      (hubs_all open' (Feeds.direct some') (Feeds.direct some')) (length_parallelPOps transformer) (fun i j => ?_)
      (made_parallelPOps transformer (by decide)) other (waits_parallelPOps transformer rfl)
        (iff_of_true some' trivial) joined_fed⟩
    rw [List.mem_append,mem_flatMap_manyToOne,manyToOne_eq,one]
    exact (or_iff_right List.not_mem_nil).symm
  · let behind := transformer.behindPOps id "Split" .split (built (wl.beside wr)).allPOps rights
    have made : Fresh id (parallel ++ behind) := by
      refine (made_parallelPOps transformer (by decide)).append (made_behindPOps transformer sound (by decide) ?_ ?_) ?_
      · exact fun i inside => ((sound.layered.mem_ends i).mp (List.mem_append_right _ inside)).1
      · exact (List.nodup_append.mp sound.layered.ends_nodup).2.1
      · exact (ofKind_parallelPOps transformer).differ (ofKind_behindPOps transformer) (by decide) (by decide)
          (by decide)
    have waits : ∀ pOp ∈ parallel ++ behind, Waits pOp := fun pOp inside =>
      (List.mem_append.mp inside).elim (waits_parallelPOps transformer rfl pOp) (waits_behindPOps transformer rfl pOp)
    have total : (parallel ++ behind).length = transformer.degree+0+rights.length := by
      rw [List.length_append,length_parallelPOps,length_behindPOps,Nat.add_zero]
    have taken := @Feeds.through rights joins ((wl.beside wr).nodes.length+transformer.degree) some'
      fun j inside => (List.mem_range'_1.mp inside).2
    refine ⟨_,transformNestedLoopJoin_many transformer soundLeft.layered sound.layered one,Transformed.around sound
      (hubs_all open' (Feeds.direct some') taken) total (fun i j => ?_) made other waits
        (iff_of_true some' trivial) joined_fed⟩
    rw [List.mem_append,mem_flatMap_manyToOne]
    exact (or_iff_right List.not_mem_nil).symm

section HashJoin
variable {left right : Wiring (PhysicalOp V)} {leftColumnNames rightColumnNames : List String}

/-- The build and the probe operators of a join. -/
def joinPOps (id : Nat) (projectColumnNames leftColumnNames rightColumnNames : List String) : List (PhysicalOp V) :=
  let text := "-" ++ PrePToPTransformer.hashJoinPredicateStr leftColumnNames rightColumnNames ++ "-"
  transformer.parallelPOps id projectColumnNames "HashJoinBuild" .hashJoinBuild text ++
    transformer.parallelPOps id projectColumnNames "HashJoinProbe" .hashJoinProbe text

theorem length_joinPOps : (joinPOps transformer id projectColumnNames leftColumnNames rightColumnNames : List (PhysicalOp V)).length =
    transformer.degree+transformer.degree := by
  rw [joinPOps,List.length_append,length_parallelPOps,length_parallelPOps]

theorem made_joinPOps :
    Fresh id (joinPOps transformer id projectColumnNames leftColumnNames rightColumnNames : List (PhysicalOp V)) := by
  refine (made_parallelPOps transformer (by decide)).append (made_parallelPOps transformer (by decide)) ?_
  exact (ofKind_parallelPOps transformer).differ (ofKind_parallelPOps transformer) (by decide) (by decide) (by decide)

theorem waits_joinPOps :
    ∀ pOp ∈ (joinPOps transformer id projectColumnNames leftColumnNames rightColumnNames : List (PhysicalOp V)),
    Waits pOp :=
  fun pOp inside => (List.mem_append.mp inside).elim (waits_parallelPOps transformer rfl pOp)
    (waits_parallelPOps transformer rfl pOp)

theorem joinPOps_differ {kind : String} {others : List (PhysicalOp V)} (ofKind : OfKind kind id others)
    (plain : Plain kind) (build : "HashJoinBuild" ≠ kind) (probe : "HashJoinProbe" ≠ kind) :
    ∀ pOp ∈ (joinPOps transformer id projectColumnNames leftColumnNames rightColumnNames : List (PhysicalOp V)),
      ∀ other ∈ others, pOp.name ≠ other.name := by
  intro pOp inside
  rcases List.mem_append.mp inside with isBuild | isProbe
  · exact (ofKind_parallelPOps transformer).differ ofKind (by decide) plain build pOp isBuild
  · exact (ofKind_parallelPOps transformer).differ ofKind (by decide) plain probe pOp isProbe

theorem transformHashJoin_one (layered : left.Layered) (one : transformer.degree = 1) :
    transformer.transformHashJoin id projectColumnNames leftColumnNames rightColumnNames (built left) (built right) =
      .ok ⟨List.range' ((left.beside right).nodes.length+transformer.degree) transformer.degree,
        ((List.range' (left.beside right).nodes.length transformer.degree).zip
            (List.range' ((left.beside right).nodes.length+transformer.degree) transformer.degree) ++
          (manyToOne left.ends (left.beside right).nodes.length ++
            manyToOne (right.ends.map (left.nodes.length + ·))
            ((left.beside right).nodes.length+transformer.degree))).foldl connect
          ((built (left.beside right)).allPOps ++
            joinPOps transformer id projectColumnNames leftColumnNames rightColumnNames)⟩ := by
  rw [PrePToPTransformer.transformHashJoin,join_producers layered,length_built,length_built,upConnPOps_built,
    upConnPOps_built]
  show (connectOneToOne (List.range' (left.beside right).nodes.length transformer.degree) _ _ >>= fun allPOps =>
    if transformer.degree = 1 then _ else _) = _
  rw [connectOneToOne_ok (List.length_range'.trans List.length_range'.symm)]
  show (if transformer.degree = 1 then _ else _) = _
  rw [if_pos one,connectManyToOne,connectManyToOne,← List.foldl_append,← List.foldl_append,List.append_assoc]
  rfl

theorem transformHashJoin_many (layered : left.Layered) (many : transformer.degree ≠ 1) :
    transformer.transformHashJoin id projectColumnNames leftColumnNames rightColumnNames (built left) (built right) =
      .ok ⟨List.range' ((left.beside right).nodes.length+transformer.degree) transformer.degree,
        ((List.range' (left.beside right).nodes.length transformer.degree).zip
            (List.range' ((left.beside right).nodes.length+transformer.degree) transformer.degree) ++
          (manyToMany (List.range' ((left.beside right).nodes.length+(transformer.degree+transformer.degree)) left.ends.length)
            (List.range' (left.beside right).nodes.length transformer.degree) ++
          (manyToMany (List.range' ((left.beside right).nodes.length+(transformer.degree+transformer.degree)+left.ends.length)
              (right.ends.map (left.nodes.length + ·)).length)
            (List.range' ((left.beside right).nodes.length+transformer.degree) transformer.degree) ++
          (left.ends.zip (List.range' ((left.beside right).nodes.length+(transformer.degree+transformer.degree)) left.ends.length) ++
          (right.ends.map (left.nodes.length + ·)).zip
            (List.range' ((left.beside right).nodes.length+(transformer.degree+transformer.degree)+left.ends.length)
              (right.ends.map (left.nodes.length + ·)).length))))).foldl connect
          ((built (left.beside right)).allPOps ++
            (joinPOps transformer id projectColumnNames leftColumnNames rightColumnNames ++
            transformer.behindPOps id "Shuffle" .shuffle (built (left.beside right)).allPOps (left.beside right).ends))⟩ := by
  have inside : ∀ i j, (i,j) ∈ (List.range' (left.beside right).nodes.length transformer.degree).zip
      (List.range' ((left.beside right).nodes.length+transformer.degree) transformer.degree) →
      i < ((built (left.beside right)).allPOps ++
        joinPOps transformer id projectColumnNames leftColumnNames rightColumnNames).length ∧
      j < ((built (left.beside right)).allPOps ++
        joinPOps transformer id projectColumnNames leftColumnNames rightColumnNames).length := by
    intro i j edge
    obtain ⟨source,target⟩ := of_mem_zip_range edge
    have bounds := List.mem_range'_1.mp source
    rw [List.length_append,length_built,length_joinPOps]
    omega
  have split : transformer.behindPOps id "Shuffle" .shuffle (built (left.beside right)).allPOps
      (left.beside right).ends =
      transformer.behindPOps id "Shuffle" .shuffle (built (left.beside right)).allPOps left.ends ++
        transformer.behindPOps id "Shuffle" .shuffle (built (left.beside right)).allPOps
          (right.ends.map (left.nodes.length + ·)) :=
    List.map_append
  rw [PrePToPTransformer.transformHashJoin,join_producers layered,length_built,length_built,upConnPOps_built,
    upConnPOps_built]
  show (connectOneToOne (List.range' (left.beside right).nodes.length transformer.degree) _ _ >>= fun allPOps =>
    if transformer.degree = 1 then _ else _) = _
  rw [connectOneToOne_ok (List.length_range'.trans List.length_range'.symm)]
  show (if transformer.degree = 1 then _ else _) = _
  rw [if_neg many]
  show (connectOneToOne left.ends _ _ >>= fun allPOps =>
    connectOneToOne (right.ends.map (left.nodes.length + ·)) _ allPOps >>= fun allPOps => .ok _) = _
  rw [connectOneToOne_ok List.length_range'.symm]
  show (connectOneToOne (right.ends.map (left.nodes.length + ·)) _ _ >>= fun allPOps => .ok _) = _
  rw [connectOneToOne_ok List.length_range'.symm,connectManyToMany,connectManyToMany,
    List.append_assoc (built _).allPOps,
    ← List.append_assoc (built _).allPOps (joinPOps _ _ _ _ _),List.foldl_append,foldl_connect_append inside,split,
    ← List.append_assoc (List.foldl _ _ _),List.foldl_append,List.foldl_append,List.foldl_append]
  rfl

end HashJoin

theorem or_regroup {a b c d e : Prop} : a ∨ b ∨ c ∨ d ∨ e ↔ a ∨ (b ∨ d) ∨ c ∨ e := by tauto

theorem transformHashJoin_spec {leftColumnNames rightColumnNames : List String} (left : Transformed ids feeds fed res)
    (right : Transformed ids' feeds' fed' res') (apart : ∀ id ∈ ids, id ∉ ids') (other : id ∉ ids ++ ids')
    (positive : 0 < transformer.degree) :
    ∃ joined, transformer.transformHashJoin id projectColumnNames leftColumnNames rightColumnNames res res' =
    .ok joined ∧
      Transformed (id::(ids ++ ids')) True (feeds ∧ fed ∧ fed') joined := by
  obtain ⟨wl,rfl,soundLeft,feeds_iff,fed_iff⟩ := left
  obtain ⟨wr,rfl,soundRight,_,fed_iff'⟩ := right
  have sound := soundLeft.beside soundRight apart
  let rights := wr.ends.map (wl.nodes.length + ·)
  let builds := List.range' (wl.beside wr).nodes.length transformer.degree
  let probes := List.range' ((wl.beside wr).nodes.length+transformer.degree) transformer.degree
  have someBuilds : builds ≠ [] := some_range positive
  have someProbes : probes ≠ [] := some_range positive
  have open' : ∀ i, i ∈ (wl.beside wr).ends ↔ i ∈ wl.ends ∨ i ∈ rights := fun i => List.mem_append
  have joined_fed : ((wl.beside wr).Fed Waits ∧ ∀ j, (wl.beside wr).nodes.length ≤ j →
      j < (wl.beside wr).nodes.length+(transformer.degree+transformer.degree) → (∃ i, (i,j) ∈ builds.zip probes) ∨
        j ∈ builds ∧ wl.ends ≠ [] ∨ j ∈ probes ∧ rights ≠ []) ↔ feeds ∧ fed ∧ fed' := by
    rw [fed_paired positive,fed_beside soundLeft.layered,fed_iff,fed_iff',feeds_iff,and_comm]
  by_cases one : transformer.degree = 1
  · refine ⟨_,transformHashJoin_one transformer soundLeft.layered one,Transformed.around sound
      (hubs_paired open' (Feeds.direct someBuilds) (Feeds.direct someProbes)) (length_joinPOps transformer)
        (fun i j => ?_)
      (made_joinPOps transformer) other (waits_joinPOps transformer) (iff_of_true someProbes trivial) joined_fed⟩
    rw [List.mem_append,List.mem_append,manyToOne_eq,manyToOne_eq,one]
  · let shuffles := transformer.behindPOps id "Shuffle" .shuffle (built (wl.beside wr)).allPOps (wl.beside wr).ends
    have made := (made_joinPOps transformer).append (made_behind_ends transformer sound (by decide))
      (@joinPOps_differ V E id projectColumnNames transformer leftColumnNames rightColumnNames "Shuffle" shuffles
        (ofKind_behindPOps transformer) (by decide) (by decide) (by decide))
    have waits : ∀ pOp ∈ joinPOps transformer id projectColumnNames leftColumnNames rightColumnNames ++
        shuffles, Waits pOp :=
      fun pOp inside => (List.mem_append.mp inside).elim (waits_joinPOps transformer pOp)
        (waits_behindPOps transformer rfl pOp)
    have total : (joinPOps transformer id projectColumnNames leftColumnNames rightColumnNames ++ shuffles).length =
        transformer.degree+transformer.degree+wl.ends.length+rights.length := by
      rw [List.length_append,length_joinPOps,length_behindPOps,Nat.add_assoc (transformer.degree+transformer.degree)]
      exact congrArg (transformer.degree+transformer.degree + ·) List.length_append
    have takenLeft := @Feeds.through wl.ends builds
        ((wl.beside wr).nodes.length+(transformer.degree+transformer.degree)) someBuilds
      fun j inside => by
        have bounds := List.mem_range'_1.mp inside
        omega
    have takenRight := @Feeds.through rights probes
      ((wl.beside wr).nodes.length+(transformer.degree+transformer.degree)+wl.ends.length) someProbes fun j inside => by
        have bounds := List.mem_range'_1.mp inside
        omega
    refine ⟨_,transformHashJoin_many transformer soundLeft.layered one,Transformed.around sound
      (hubs_paired open' takenLeft takenRight) total (fun i j => ?_) made other waits
        (iff_of_true someProbes trivial) joined_fed⟩
    simp only [List.mem_append]
    exact or_regroup

end Operators

end Hermes.Transform
