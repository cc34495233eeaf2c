import Hermes.Library.Transition
import Mathlib.Data.List.Perm.Basic

/-! `POpDirectory` and `LocalPOpDirectory`: who takes part in a query and who is done.
Both keep counters beside the entries. An entry's operator and actor handle are one
payload; the entries are the map in some order. -/
namespace Hermes.Operators
open Hermes.Library.Transition
variable {α : Type}

inductive POpRelationshipType where
  | producer
  | consumer
deriving DecidableEq, Repr

/-- `unordered_map::find`, on entries with the name given by `nameOf`. -/
def find {ε : Type} (nameOf : ε → String) (entries : List ε) (name : String) : Option ε :=
  entries.find? fun entry => nameOf entry == name

/-- Changes the entry that `find` finds. -/
def update {ε : Type} (nameOf : ε → String) (change : ε → ε) (name : String) : List ε → List ε
  | [] => []
  | entry::entries =>
    if nameOf entry == name then change entry::entries else entry::update nameOf change name entries

theorem update_perm {ε : Type} {nameOf : ε → String} {entries : List ε} {name : String} {entry : ε}
    (found : find nameOf entries name = some entry) (change : ε → ε) :
    ∃ others, entries.Perm (entry::others) ∧ (update nameOf change name entries).Perm (change entry::others) := by
  induction entries with
  | nil => cases found
  | cons head entries ih =>
    rw [find,List.find?_cons] at found
    by_cases here : nameOf head == name
    · rw [here] at found
      rw [update,if_pos here,Option.some.inj found]
      exact ⟨entries,.refl _,.refl _⟩
    · rw [Bool.not_eq_true] at here
      rw [here] at found
      obtain ⟨others,before,after⟩ := ih found
      rw [update,here,if_neg Bool.false_ne_true]
      exact ⟨head::others,(before.cons head).trans (.swap _ _ _),(after.cons head).trans (.swap _ _ _)⟩

theorem find_update {ε : Type} {nameOf : ε → String} {change : ε → ε}
    (keeps : ∀ entry, nameOf (change entry) = nameOf entry) (entries : List ε) (name other : String) :
    find nameOf (update nameOf change name entries) other =
      if name = other then (find nameOf entries other).map change else find nameOf entries other := by
  induction entries with
  | nil => simp [update,find]
  | cons head entries ih =>
    unfold find at ih ⊢
    by_cases here : nameOf head = name
    · by_cases same : name = other
      · simp [update,keeps,here,same]
      · simp [update,keeps,here,same]
    · rw [update,if_neg (by simpa using here),List.find?_cons,List.find?_cons,ih]
      by_cases there : nameOf head = other
      · have differ : name ≠ other := fun same => here (there.trans same.symm)
        simp [there,differ]
      · rw [show (nameOf head == other) = false by simpa using there]

structure POpDirectoryEntry (α : Type) where
  name : String
  handle : α
  isComplete : Bool
deriving DecidableEq

structure POpDirectory (α : Type) where
  entries : List (POpDirectoryEntry α)
  numOperators : Int
  numOperatorsComplete : Int
deriving DecidableEq

namespace POpDirectory

def make : POpDirectory α := ⟨[],0,0⟩

def insert (directory : POpDirectory α) (entry : POpDirectoryEntry α) : POpDirectory α × Except String Unit :=
  match find (·.name) directory.entries entry.name with
  | some _ => (directory,.error ("Operator '" ++ entry.name ++ "' already added to directory"))
  | none => ({directory with
      entries := entry::directory.entries
      numOperators := directory.numOperators+1},.ok ())

def setComplete (directory : POpDirectory α) (name : String) : POpDirectory α × Except String Unit :=
  match find (·.name) directory.entries name with
  | none => (directory,.error ("No entry for operator '" ++ name ++ "'"))
  | some entry =>
    if entry.isComplete then
      (directory,.error ("Opdir: Entry for operator '" ++ name ++ "'" ++ "completes twice"))
    else ({directory with
      entries := update (·.name) (fun entry => {entry with isComplete := true}) name directory.entries
      numOperatorsComplete := directory.numOperatorsComplete+1},.ok ())

def allComplete (directory : POpDirectory α) : Bool :=
  decide (directory.numOperatorsComplete ≥ directory.numOperators)

def setIncomplete (directory : POpDirectory α) : POpDirectory α :=
  {directory with entries := directory.entries.map fun entry => {entry with isComplete := false}}

def clear (directory : POpDirectory α) : POpDirectory α := {directory with entries := []}

end POpDirectory

structure LocalPOpDirectoryEntry (α : Type) where
  name : String
  actor : α
  relationshipType : POpRelationshipType
  complete : Bool
deriving DecidableEq

structure LocalPOpDirectory (α : Type) where
  entries : List (LocalPOpDirectoryEntry α)
  numProducers : Int
  numConsumers : Int
  numProducersComplete : Int
  numConsumersComplete : Int
deriving DecidableEq

namespace LocalPOpDirectory

def make : LocalPOpDirectory α := ⟨[],0,0,0,0⟩

def insert (directory : LocalPOpDirectory α) (entry : LocalPOpDirectoryEntry α) :
    LocalPOpDirectory α × Except String Unit :=
  match find (·.name) directory.entries entry.name with
  | some _ => (directory,.error ("Operator '" ++ entry.name ++ "' already added to local directory"))
  | none =>
    let inserted := {directory with entries := entry::directory.entries}
    match entry.relationshipType with
    | .producer => ({inserted with numProducers := directory.numProducers+1},.ok ())
    | .consumer => ({inserted with numConsumers := directory.numConsumers+1},.ok ())

def setComplete (directory : LocalPOpDirectory α) (name : String) : LocalPOpDirectory α × Except String Unit :=
  match find (·.name) directory.entries name with
  | none => (directory,.error ("No entry for actor '" ++ name ++ "'"))
  | some entry =>
    if entry.complete then
      (directory,.error ("LocalOpdir: Entry for operator '" ++ name ++ "'" ++ "completes twice"))
    else
      let marked := {directory with
        entries := update (·.name) (fun entry => {entry with complete := true}) name directory.entries}
      match entry.relationshipType with
      | .producer => ({marked with numProducersComplete := directory.numProducersComplete+1},.ok ())
      | .consumer => ({marked with numConsumersComplete := directory.numConsumersComplete+1},.ok ())

def allComplete (directory : LocalPOpDirectory α) : POpRelationshipType → Bool
  | .producer => decide (directory.numProducersComplete ≥ directory.numProducers)
  | .consumer => decide (directory.numConsumersComplete ≥ directory.numConsumers)

section
variable (directory : LocalPOpDirectory α)

def entryOf (name : String) : Option (LocalPOpDirectoryEntry α) := find (·.name) directory.entries name

theorem entryOf_insert {name : String} {there : LocalPOpDirectoryEntry α} (found : directory.entryOf name = some there)
    (entry : LocalPOpDirectoryEntry α) : (directory.insert entry).1.entryOf name = some there := by
  unfold insert
  cases taken : find (·.name) directory.entries entry.name with
  | some _ => exact found
  | none =>
    have differ : entry.name ≠ name := by
      intro same
      rw [same] at taken
      exact Option.some_ne_none there (found.symm.trans taken)
    have skipped : find (·.name) (entry::directory.entries) name = some there := by
      rw [find,List.find?_cons,show (entry.name == name) = false by simpa using differ]
      exact found
    cases entry.relationshipType with
    | producer => exact skipped
    | consumer => exact skipped

theorem setComplete_of_awaited {name : String} {entry : LocalPOpDirectoryEntry α}
    (found : directory.entryOf name = some entry) (awaited : entry.complete = false) :
    (directory.setComplete name).2 = .ok () := by
  unfold entryOf at found
  unfold setComplete
  rw [found]
  simp only [awaited,Bool.false_eq_true,if_false]
  cases entry.relationshipType with
  | producer => rfl
  | consumer => rfl

theorem awaited_of_setComplete {name : String} {done : Unit} (completed : (directory.setComplete name).2 = .ok done) :
    ∃ entry, directory.entryOf name = some entry ∧ entry.complete = false := by
  unfold setComplete at completed
  cases found : find (·.name) directory.entries name with
  | none =>
    rw [found] at completed
    cases completed
  | some entry =>
    rw [found] at completed
    cases complete : entry.complete with
    | false => exact ⟨entry,found,complete⟩
    | true => simp [complete] at completed

theorem entryOf_setComplete (name other : String) : (directory.setComplete name).1.entryOf other =
    if name = other ∧ (directory.setComplete name).2 = .ok () then
      (directory.entryOf other).map fun entry => {entry with complete := true}
    else directory.entryOf other := by
  unfold setComplete
  cases found : find (·.name) directory.entries name with
  | none => simp
  | some entry =>
    cases complete : entry.complete with
    | true => simp [complete]
    | false =>
      have updated := @find_update (LocalPOpDirectoryEntry α) (·.name) (fun entry => {entry with complete := true})
        (fun _ => rfl) directory.entries name other
      cases related : entry.relationshipType with
      | producer => simpa [complete,related,entryOf] using updated
      | consumer => simpa [complete,related,entryOf] using updated

end

end LocalPOpDirectory

section
variable {ε : Type} {isOpen : ε → Bool} {total done : Int} {entries : List ε}

def Tallies (isOpen : ε → Bool) (total done : Int) (entries : List ε) : Prop :=
  total = done+entries.countP isOpen

theorem Tallies.all_closed (tallies : Tallies isOpen total done entries) :
    done ≥ total ↔ ∀ entry ∈ entries, isOpen entry = false := by
  unfold Tallies at tallies
  have none : entries.countP isOpen = 0 ↔ ∀ entry ∈ entries, ¬isOpen entry = true := List.countP_eq_zero
  simp only [Bool.not_eq_true] at none
  rw [← none]
  omega

theorem Tallies.cons_open (tallies : Tallies isOpen total done entries) {entry : ε}
    (opened : isOpen entry = true) : Tallies isOpen (total+1) done (entry::entries) := by
  unfold Tallies at tallies ⊢
  rw [List.countP_cons_of_pos opened]
  push_cast
  omega

theorem Tallies.cons_closed (tallies : Tallies isOpen total done entries) {entry : ε}
    (closed : isOpen entry = false) : Tallies isOpen total done (entry::entries) := by
  unfold Tallies at tallies ⊢
  rwa [List.countP_cons_of_neg (by simp [closed])]

theorem countP_update (isOpen : ε → Bool) {nameOf : ε → String} {name : String} {entry : ε}
    (found : find nameOf entries name = some entry) (change : ε → ε) :
    (update nameOf change name entries).countP isOpen+(if isOpen entry then 1 else 0) =
      entries.countP isOpen+(if isOpen (change entry) then 1 else 0) := by
  obtain ⟨others,before,after⟩ := update_perm found change
  rw [before.countP_eq,after.countP_eq,List.countP_cons,List.countP_cons]
  omega

theorem Tallies.close (tallies : Tallies isOpen total done entries) {nameOf : ε → String} {name : String}
    {entry : ε} (found : find nameOf entries name = some entry) (opened : isOpen entry = true) {change : ε → ε}
    (closes : isOpen (change entry) = false) : Tallies isOpen total (done+1) (update nameOf change name entries) := by
  have count := countP_update isOpen found change
  unfold Tallies at tallies ⊢
  simp only [opened,closes,if_true,Bool.false_eq_true,if_false] at count
  omega

theorem Tallies.keep (tallies : Tallies isOpen total done entries) {nameOf : ε → String} {name : String}
    {entry : ε} (found : find nameOf entries name = some entry) {change : ε → ε}
    (same : isOpen (change entry) = isOpen entry) : Tallies isOpen total done (update nameOf change name entries) := by
  have count := countP_update isOpen found change
  unfold Tallies at tallies ⊢
  rw [same] at count
  omega

end

namespace POpDirectory

inductive Operation (α : Type) where
  | insert (entry : POpDirectoryEntry α)
  | setComplete (name : String)
  | setIncomplete
  | clear

def apply (directory : POpDirectory α) : Operation α → POpDirectory α × Except String Unit
  | .insert entry => directory.insert entry
  | .setComplete name => directory.setComplete name
  | .setIncomplete => (directory.setIncomplete,.ok ())
  | .clear => (directory.clear,.ok ())

def Step (directory : POpDirectory α) (operation : Operation α) (next : POpDirectory α) : Prop :=
  (directory.apply operation).1 = next

def Exact (directory : POpDirectory α) : Prop :=
  directory.allComplete = true ↔ ∀ entry ∈ directory.entries, entry.isComplete = true

/-- The operations that do not set back what the counters have counted. -/
def InStep (directory : POpDirectory α) : Operation α → Prop
  | .insert entry => entry.isComplete = true → find (·.name) directory.entries entry.name ≠ none
  | .setComplete _ => True
  | .setIncomplete => ∀ entry ∈ directory.entries, entry.isComplete = false
  | .clear => ∀ entry ∈ directory.entries, entry.isComplete = true

def Balanced (directory : POpDirectory α) : Prop :=
  Tallies (fun entry => !entry.isComplete) directory.numOperators directory.numOperatorsComplete directory.entries

theorem make_balanced : (make : POpDirectory α).Balanced := rfl

variable {directory : POpDirectory α}

theorem Balanced.exact (balanced : directory.Balanced) : directory.Exact := by
  have closed := Tallies.all_closed balanced
  simpa [Exact,allComplete] using closed

theorem insert_balanced (balanced : directory.Balanced) {entry : POpDirectoryEntry α}
    (inStep : directory.InStep (.insert entry)) : (directory.insert entry).1.Balanced := by
  unfold insert
  cases found : find (·.name) directory.entries entry.name with
  | some _ => exact balanced
  | none =>
    have incomplete : entry.isComplete = false := by
      by_contra complete
      exact inStep (by simpa using complete) found
    exact Tallies.cons_open balanced (by simp [incomplete])

theorem setComplete_balanced (balanced : directory.Balanced) (name : String) :
    (directory.setComplete name).1.Balanced := by
  unfold setComplete
  cases found : find (·.name) directory.entries name with
  | none => exact balanced
  | some entry =>
    by_cases complete : entry.isComplete
    · simpa [complete] using balanced
    · simp only [complete,Bool.false_eq_true,if_false]
      exact Tallies.close balanced found (by simp [complete]) rfl

theorem setIncomplete_of_incomplete (incomplete : ∀ entry ∈ directory.entries, entry.isComplete = false) :
    directory.setIncomplete = directory := by
  have same : directory.entries.map (fun entry => {entry with isComplete := false}) = directory.entries.map id := by
    apply List.map_congr_left
    intro entry member
    rw [← incomplete entry member]
    rfl
  rw [List.map_id] at same
  rw [setIncomplete,same]

theorem clear_balanced (balanced : directory.Balanced)
    (complete : ∀ entry ∈ directory.entries, entry.isComplete = true) :
    directory.clear.Balanced := by
  have closed : directory.entries.countP (fun entry => !entry.isComplete) = 0 := by
    rw [List.countP_eq_zero]
    intro entry member
    simp [complete entry member]
  unfold Balanced Tallies at balanced ⊢
  rw [closed] at balanced
  exact balanced

theorem apply_balanced (balanced : directory.Balanced) {operation : Operation α} (inStep : directory.InStep operation) :
    (directory.apply operation).1.Balanced := by
  cases operation with
  | insert entry => exact insert_balanced balanced inStep
  | setComplete name => exact setComplete_balanced balanced name
  | setIncomplete =>
    rw [apply,setIncomplete_of_incomplete inStep]
    exact balanced
  | clear => exact clear_balanced balanced inStep

theorem apply_failed (directory : POpDirectory α) (operation : Operation α) {message : String}
    (failed : (directory.apply operation).2 = .error message) : (directory.apply operation).1 = directory := by
  cases operation with
  | insert entry =>
    simp only [apply,insert] at failed ⊢
    cases found : find (·.name) directory.entries entry.name with
    | some _ => rfl
    | none =>
      rw [found] at failed
      cases failed
  | setComplete name =>
    simp only [apply,setComplete] at failed ⊢
    cases found : find (·.name) directory.entries name with
    | none => rfl
    | some entry =>
      rw [found] at failed
      by_cases complete : entry.isComplete
      · simp [complete]
      · simp [complete] at failed
  | setIncomplete => cases failed
  | clear => cases failed

end POpDirectory

namespace LocalPOpDirectory

inductive Operation (α : Type) where
  | insert (entry : LocalPOpDirectoryEntry α)
  | setComplete (name : String)

def apply (directory : LocalPOpDirectory α) : Operation α → LocalPOpDirectory α × Except String Unit
  | .insert entry => directory.insert entry
  | .setComplete name => directory.setComplete name

def Step (directory : LocalPOpDirectory α) (operation : Operation α) (next : LocalPOpDirectory α) : Prop :=
  (directory.apply operation).1 = next

def Exact (directory : LocalPOpDirectory α) : Prop :=
  ∀ relationship, directory.allComplete relationship = true ↔
    ∀ entry ∈ directory.entries, entry.relationshipType = relationship → entry.complete = true

def InStep (directory : LocalPOpDirectory α) : Operation α → Prop
  | .insert entry => entry.complete = true → find (·.name) directory.entries entry.name ≠ none
  | .setComplete _ => True

def awaited (relationship : POpRelationshipType) (entry : LocalPOpDirectoryEntry α) : Bool :=
  entry.relationshipType == relationship && !entry.complete

def Balanced (directory : LocalPOpDirectory α) : Prop :=
  Tallies (awaited .producer) directory.numProducers directory.numProducersComplete directory.entries ∧
    Tallies (awaited .consumer) directory.numConsumers directory.numConsumersComplete directory.entries

theorem make_balanced : (make : LocalPOpDirectory α).Balanced := ⟨rfl,rfl⟩

variable {directory : LocalPOpDirectory α}

theorem awaited_eq_false {relationship : POpRelationshipType} {entry : LocalPOpDirectoryEntry α} :
    awaited relationship entry = false ↔ (entry.relationshipType = relationship → entry.complete = true) := by
  by_cases same : entry.relationshipType = relationship <;> simp [awaited,same]

theorem Balanced.exact (balanced : directory.Balanced) : directory.Exact := by
  intro relationship
  simp only [← awaited_eq_false]
  cases relationship with
  | producer => simpa [allComplete] using balanced.1.all_closed
  | consumer => simpa [allComplete] using balanced.2.all_closed

theorem insert_balanced (balanced : directory.Balanced) {entry : LocalPOpDirectoryEntry α}
    (inStep : directory.InStep (.insert entry)) : (directory.insert entry).1.Balanced := by
  unfold insert
  cases found : find (·.name) directory.entries entry.name with
  | some _ => exact balanced
  | none =>
    have incomplete : entry.complete = false := by
      by_contra complete
      exact inStep (by simpa using complete) found
    cases related : entry.relationshipType with
    | producer =>
      exact ⟨balanced.1.cons_open (by simp [awaited,related,incomplete]),
        balanced.2.cons_closed (by simp [awaited,related])⟩
    | consumer =>
      exact ⟨balanced.1.cons_closed (by simp [awaited,related]),
        balanced.2.cons_open (by simp [awaited,related,incomplete])⟩

theorem setComplete_balanced (balanced : directory.Balanced) (name : String) :
    (directory.setComplete name).1.Balanced := by
  unfold setComplete
  cases found : find (·.name) directory.entries name with
  | none => exact balanced
  | some entry =>
    by_cases complete : entry.complete
    · simpa [complete] using balanced
    · simp only [complete,Bool.false_eq_true,if_false]
      cases related : entry.relationshipType with
      | producer =>
        exact ⟨balanced.1.close found (by simp [awaited,related,complete]) (by simp [awaited]),
          balanced.2.keep found (by simp [awaited,related])⟩
      | consumer =>
        exact ⟨balanced.1.keep found (by simp [awaited,related]),
          balanced.2.close found (by simp [awaited,related,complete]) (by simp [awaited])⟩

theorem apply_balanced (balanced : directory.Balanced) {operation : Operation α} (inStep : directory.InStep operation) :
    (directory.apply operation).1.Balanced := by
  cases operation with
  | insert entry => exact insert_balanced balanced inStep
  | setComplete name => exact setComplete_balanced balanced name

theorem apply_failed (directory : LocalPOpDirectory α) (operation : Operation α) {message : String}
    (failed : (directory.apply operation).2 = .error message) : (directory.apply operation).1 = directory := by
  cases operation with
  | insert entry =>
    simp only [apply,insert] at failed ⊢
    cases found : find (·.name) directory.entries entry.name with
    | some _ => rfl
    | none =>
      rw [found] at failed
      cases related : entry.relationshipType with
      | producer => simp [related] at failed
      | consumer => simp [related] at failed
  | setComplete name =>
    simp only [apply,setComplete] at failed ⊢
    cases found : find (·.name) directory.entries name with
    | none => rfl
    | some entry =>
      rw [found] at failed
      by_cases complete : entry.complete
      · simp [complete]
      · cases related : entry.relationshipType with
        | producer => simp [complete,related] at failed
        | consumer => simp [complete,related] at failed

end LocalPOpDirectory

/-- As long as no operation sets back what the counters have counted, both kinds of
directory answer exactly, and an operation that fails leaves everything as it is. -/
theorem completion_tracking_exact :
    (∀ (operations : List (POpDirectory.Operation α)) (directory : POpDirectory α),
      Run (Meeting POpDirectory.InStep POpDirectory.Step) .make operations directory →
      directory.Exact ∧ ∀ operation message, (directory.apply operation).2 = .error message →
        (directory.apply operation).1 = directory) ∧
    (∀ (operations : List (LocalPOpDirectory.Operation α)) (directory : LocalPOpDirectory α),
      Run (Meeting LocalPOpDirectory.InStep LocalPOpDirectory.Step) .make operations directory →
      directory.Exact ∧ ∀ operation message, (directory.apply operation).2 = .error message →
        (directory.apply operation).1 = directory) := by
  refine ⟨?_,?_⟩
  · intro operations directory run
    have balanced : directory.Balanced := by
      apply run.invariant POpDirectory.Balanced POpDirectory.make_balanced
      intro state operation next balanced ⟨inStep,same⟩
      rw [← same]
      exact POpDirectory.apply_balanced balanced inStep
    exact ⟨balanced.exact,fun operation message => POpDirectory.apply_failed directory operation⟩
  · intro operations directory run
    have balanced : directory.Balanced := by
      apply run.invariant LocalPOpDirectory.Balanced LocalPOpDirectory.make_balanced
      intro state operation next balanced ⟨inStep,same⟩
      rw [← same]
      exact LocalPOpDirectory.apply_balanced balanced inStep
    exact ⟨balanced.exact,fun operation message => LocalPOpDirectory.apply_failed directory operation⟩

/-- A scan that is awaited, completed and asked to complete again, in both directories. -/
theorem scan_tracked :
    (∃ directory, Run (Meeting POpDirectory.InStep POpDirectory.Step) (.make : POpDirectory Unit)
        [.insert ⟨"scan",(),false⟩,.setComplete "scan",.setComplete "scan",.clear] directory ∧ directory.Exact) ∧
      ∃ directory, Run (Meeting LocalPOpDirectory.InStep LocalPOpDirectory.Step) (.make : LocalPOpDirectory Unit)
        [.insert ⟨"scan",(),.producer,false⟩,.setComplete "scan",.setComplete "scan"] directory ∧
        directory.Exact := by
  have whole : ∃ directory, Run (Meeting POpDirectory.InStep POpDirectory.Step) (.make : POpDirectory Unit)
      [.insert ⟨"scan",(),false⟩,.setComplete "scan",.setComplete "scan",.clear] directory :=
    ⟨_,(((Run.nil.snoc ⟨by simp [POpDirectory.InStep],rfl⟩).snoc ⟨trivial,rfl⟩).snoc ⟨trivial,rfl⟩).snoc
      ⟨by simp [POpDirectory.InStep,POpDirectory.apply,POpDirectory.insert,POpDirectory.setComplete,find,update,
        POpDirectory.make],rfl⟩⟩
  have local' : ∃ directory, Run (Meeting LocalPOpDirectory.InStep LocalPOpDirectory.Step)
      (.make : LocalPOpDirectory Unit)
      [.insert ⟨"scan",(),.producer,false⟩,.setComplete "scan",.setComplete "scan"] directory :=
    ⟨_,((Run.nil.snoc ⟨by simp [LocalPOpDirectory.InStep],rfl⟩).snoc ⟨trivial,rfl⟩).snoc ⟨trivial,rfl⟩⟩
  obtain ⟨directory,run⟩ := whole
  obtain ⟨localDirectory,localRun⟩ := local'
  exact ⟨⟨directory,run,(completion_tracking_exact.1 _ _ run).1⟩,
    ⟨localDirectory,localRun,(completion_tracking_exact.2 _ _ localRun).1⟩⟩

/-- After a completed query the entries are set incomplete, and the directory still
answers that all are complete. -/
theorem stale_after_setIncomplete :
    ∃ directory, Run POpDirectory.Step (.make : POpDirectory Unit)
        [.insert ⟨"scan",(),false⟩,.setComplete "scan",.setIncomplete] directory ∧
      directory.allComplete = true ∧ directory.entries = [⟨"scan",(),false⟩] ∧ ¬directory.Exact := by
  refine ⟨_,((Run.nil.snoc rfl).snoc rfl).snoc rfl,by decide,by decide,?_⟩
  intro exact
  have complete := exact.mp (by decide) ⟨"scan",(),false⟩ (by decide)
  cases complete

end Hermes.Operators
