import ApiLinker.Linking.Lending
import ApiLinker.Proofs.Linking.Walk
import ApiLinker.Proofs.Nesting

/-!
Walks that borrow come to their end.

A walk that borrows goes through its stops as the tour does (`Borrowing.goThrough_of_nests`): what is
on loan was entered before, so that nothing on loan is entered, and as every entity that is gone
through has been entered just now, there are never more of them than there are entities.  It leaves
behind what the walk leaves behind (`Linker.walk_eq_of_lend`).
-/

namespace ApiLinker

open ApiLinker.Graph

/-- The state once these stops are visited and these entities borrowed and given back. -/
def Lending.advance (lending : Lending) (linker : Linker) (visited : List Stop)
    (borrowed : List EntityId) : Lending where
  progress := (visited.mapM linker.visit lending.progress).2
  entered := borrowed ++ lending.entered
  onLoan := lending.onLoan
  borrowed := borrowed ++ lending.borrowed
  visited := lending.visited ++ visited
  schemas := lending.schemas ++ (visited.mapM linker.visit lending.progress).1

/-- The state while an entity is on loan. -/
def Lending.lent (lending : Lending) (id : EntityId) : Lending :=
  { lending with onLoan := id :: lending.onLoan }

namespace Lending

theorem advance_nil (lending : Lending) (linker : Linker) :
    lending.advance linker [] [] = lending := by
  simp only [advance, List.nil_append, List.append_nil]
  exact congrArg (fun schemas => { lending with schemas }) (List.append_nil _)

theorem advance_advance (lending : Lending) (linker : Linker) (visited more : List Stop)
    (borrowed others : List EntityId) :
    (lending.advance linker visited borrowed).advance linker more others =
      lending.advance linker (visited ++ more) (others ++ borrowed) := by
  simp only [advance, List.mapM_append, List.append_assoc]
  rfl

/-- What is given back is on loan no longer, whatever was visited and borrowed meanwhile. -/
theorem givenBack (lending : Lending) (linker : Linker) (id : EntityId) (visited : List Stop)
    (borrowed : List EntityId) :
    { (lending.lent id).advance linker visited borrowed with
      onLoan := ((lending.lent id).advance linker visited borrowed).onLoan.erase id } =
        lending.advance linker visited borrowed := by
  simp only [advance, lent, List.erase_cons_head]

end Lending

namespace Borrowing

variable {linker : Linker} {graph : Graph} {lending after : Lending} {id : EntityId}

theorem bind_ok {action : Borrowing α} {next : α → Borrowing β} {value : α}
    (ran : action lending = .ok (value, after)) : (action >>= next) lending = next value after := by
  change (action lending).bind _ = _
  rw [ran]
  rfl

theorem get_bind {next : Lending → Borrowing β} : (get >>= next) lending = next lending lending :=
  rfl

theorem visit_eq (linker : Linker) (stop : Stop) (lending : Lending) :
    visit linker stop lending = .ok ((), lending.advance linker [stop] []) := rfl

theorem borrow_free (free : id ∉ lending.onLoan) :
    borrow id lending = .ok ((), { lending with
      onLoan := id :: lending.onLoan
      borrowed := id :: lending.borrowed }) := by
  rw [borrow, get_bind, if_neg free]
  rfl

variable {inside : Entity → Borrowing Unit}

theorem enter_entered (entered : id ∈ lending.entered) :
    enter graph id inside lending = .ok ((), lending) := by
  rw [enter, get_bind, if_pos entered]
  rfl

theorem enter_missing (missing : graph.entity? id = none) :
    enter graph id inside lending = .ok ((), lending) := by
  rw [enter, get_bind, missing]
  split <;> rfl

/-- An entity that is not on loan can be borrowed, and is given back. -/
theorem enter_fresh {entity : Entity} (fresh : id ∉ lending.entered)
    (found : graph.entity? id = some entity) (free : id ∉ lending.onLoan)
    (ran : inside entity { lending with
      entered := id :: lending.entered
      onLoan := id :: lending.onLoan
      borrowed := id :: lending.borrowed } = .ok ((), after)) :
    enter graph id inside lending =
      .ok ((), { after with onLoan := after.onLoan.erase id }) := by
  have marked : (modify fun lending : Lending => { lending with entered := id :: lending.entered } :
      Borrowing Unit) lending = .ok ((), { lending with entered := id :: lending.entered }) := rfl
  have taken := @borrow_free { lending with entered := id :: lending.entered } id free
  rw [enter, get_bind, if_neg fresh]
  simp only [found]
  rw [bind_ok marked, bind_ok taken, bind_ok ran]
  rfl

theorem goThrough_cons (depth : Nat) (stop : Stop) (stops : List Stop) :
    goThrough linker graph (depth + 1) (stop :: stops) =
      follow linker graph (goThrough linker graph depth) stop >>= fun _ =>
        goThrough linker graph (depth + 1) stops := rfl

section

/-! Following one stop. -/

variable {goThrough : List Stop → Borrowing Unit} {stop : Stop}

theorem follow_shut (shut : ∀ id, stop.leadsTo? linker.index = some id → id < graph.size →
      id ∈ lending.entered) :
    follow linker graph goThrough stop lending = .ok ((), lending.advance linker [stop] []) := by
  rw [follow, bind_ok (visit_eq linker stop lending)]
  cases leads : stop.leadsTo? linker.index with
  | none => rfl
  | some id =>
      by_cases known : id < graph.size
      · exact enter_entered (shut id leads known)
      · exact enter_missing (Array.getElem?_eq_none_iff.mpr (Nat.le_of_not_lt known))

theorem follow_fresh {entity : Entity} {inner : List Stop} {borrowed : List EntityId}
    (leads : stop.leadsTo? linker.index = some id) (fresh : id ∉ lending.entered)
    (found : graph.entity? id = some entity) (free : id ∉ lending.onLoan)
    (ran : goThrough ((Holder.entity id).stops stop.path entity.places)
      ((lending.advance linker [stop] [id]).lent id) =
        .ok ((), ((lending.advance linker [stop] [id]).lent id).advance linker inner borrowed)) :
    follow linker graph goThrough stop lending =
      .ok ((), lending.advance linker (stop :: inner) (borrowed ++ [id])) := by
  have givenBack := (lending.advance linker [stop] [id]).givenBack linker id inner borrowed
  rw [Lending.advance_advance, List.singleton_append] at givenBack
  rw [follow, bind_ok (visit_eq linker stop lending), leads, ← givenBack]
  exact enter_fresh fresh found free ran

end

section

/-! Following the first stop, then the others. -/

variable {depth : Nat} {stop : Stop} {stops inner visited : List Stop}
variable {borrowed others : List EntityId}

theorem goThrough_shut (shut : ∀ id, stop.leadsTo? linker.index = some id → id < graph.size →
      id ∈ lending.entered)
    (ran : goThrough linker graph (depth + 1) stops (lending.advance linker [stop] []) =
      .ok ((), (lending.advance linker [stop] []).advance linker visited borrowed)) :
    goThrough linker graph (depth + 1) (stop :: stops) lending =
      .ok ((), lending.advance linker (stop :: visited) borrowed) := by
  rw [Lending.advance_advance, List.append_nil] at ran
  rw [goThrough_cons, bind_ok (follow_shut shut)]
  exact ran

theorem goThrough_fresh {entity : Entity} (leads : stop.leadsTo? linker.index = some id)
    (fresh : id ∉ lending.entered) (found : graph.entity? id = some entity)
    (free : id ∉ lending.onLoan)
    (ranInside : goThrough linker graph depth ((Holder.entity id).stops stop.path entity.places)
      ((lending.advance linker [stop] [id]).lent id) =
        .ok ((), ((lending.advance linker [stop] [id]).lent id).advance linker inner borrowed))
    (ran : goThrough linker graph (depth + 1) stops
        (lending.advance linker (stop :: inner) (borrowed ++ [id])) =
      .ok ((), (lending.advance linker (stop :: inner) (borrowed ++ [id])).advance linker visited
        others)) :
    goThrough linker graph (depth + 1) (stop :: stops) lending =
      .ok ((), lending.advance linker (stop :: inner ++ visited) (others ++ (borrowed ++ [id]))) := by
  rw [goThrough_cons, bind_ok (follow_fresh leads fresh found free ranInside), ran,
    Lending.advance_advance]

end

/-- The recursion of a tour is the way of a walk that borrows, if that may go as deep as there are
entities left to enter. -/
theorem goThrough_of_nests {opened later : List EntityId} {stops visited : List Stop}
    (nests : (graph.tourSearch linker.index).Nests opened stops visited later) {depth : Nat}
    (deep : Search.unopened (fun _ => 1) opened (graph.tourSearch linker.index).keys < depth)
    (entered : lending.entered = opened) (within : lending.onLoan ⊆ opened) :
    ∃ borrowed, later = borrowed ++ opened ∧
      goThrough linker graph depth stops lending =
        .ok ((), lending.advance linker visited borrowed) := by
  induction nests generalizing depth lending with
  | nil opened =>
      obtain ⟨depth, rfl⟩ := Nat.exists_eq_add_of_lt deep
      exact ⟨[], rfl, by rw [Lending.advance_nil]; rfl⟩
  | @pass opened later waiting visited stop shut _ ih =>
      obtain ⟨depth, rfl⟩ : ∃ less, depth = less + 1 := ⟨depth - 1, by omega⟩
      have stays : ∀ id, stop.leadsTo? linker.index = some id → id < graph.size →
          id ∈ lending.entered :=
        fun id leads known => entered ▸ shut id leads (List.mem_range.mpr known)
      have enteredYet : (lending.advance linker [stop] []).entered = opened := entered
      obtain ⟨borrowed, same, ran⟩ := ih deep enteredYet within
      exact ⟨borrowed, same, goThrough_shut stays ran⟩
  | @enter opened middle later waiting inner visited stop id leads isKey closed inside _ ihInside
      ih =>
      obtain ⟨depth, rfl⟩ : ∃ less, depth = less + 1 := ⟨depth - 1, by omega⟩
      obtain ⟨entity, found⟩ : ∃ entity, graph.entity? id = some entity :=
        ⟨_, Array.getElem?_eq_getElem (List.mem_range.mp isKey)⟩
      have places : (Holder.entity id).stops stop.path entity.places =
          (graph.tourSearch linker.index).contents stop id := by
        simp only [tourSearch, placesOf, found, Option.map_some, Option.getD_some]
      have fewer := Search.size_add_unopened_le (fun _ => 1) isKey closed
      -- While the entity is gone through it is on loan, and counts as entered.
      have enteredNow : [id] ++ lending.entered = id :: opened := by rw [entered]; rfl
      obtain ⟨borrowed, rfl, ranInside⟩ := @ihInside
        ((lending.advance linker [stop] [id]).lent id) depth (by omega) enteredNow
        (List.cons_subset_cons id within)
      -- Once it is given back, nothing else is on loan than before, and more was entered.
      have fewerYet := inside.unopened_le (fun _ => 1) (graph.tourSearch linker.index).keys
      have enteredYet : (borrowed ++ [id]) ++ lending.entered = borrowed ++ id :: opened := by
        rw [entered, List.append_assoc, List.singleton_append]
      have withinYet : lending.onLoan ⊆ borrowed ++ id :: opened :=
        List.Subset.trans within
          (List.Subset.trans (List.subset_cons_self id opened) (List.subset_append_right _ _))
      obtain ⟨others, rfl, ran⟩ := @ih (lending.advance linker (stop :: inner) (borrowed ++ [id]))
        (depth + 1) (by omega) enteredYet withinYet
      refine ⟨others ++ (borrowed ++ [id]), by simp, ?_⟩
      exact goThrough_fresh leads (entered ▸ closed) found (fun onLoan => closed (within onLoan))
        (places ▸ ranInside) ran

end Borrowing

namespace Linker

variable {linker : Linker} {graph : Graph} {document : Document}

/-- A walk that borrows visits the stops of the tour, and borrows what the tour enters. -/
theorem lend_eq (linker : Linker) (graph : Graph) (document : Document) :
    ∃ borrowed,
      (graph.tour linker.index linker.entered document).2 = borrowed ++ linker.entered ∧
      linker.lend graph document = .ok {
        progress := (linker.visits graph document).2
        entered := borrowed ++ linker.entered
        borrowed
        visited := (graph.tour linker.index linker.entered document).1
        schemas := (linker.visits graph document).1 } := by
  have nests := (runs_tour graph linker.index linker.entered document).nests
  have deep : Search.unopened (fun _ => 1) linker.entered (graph.tourSearch linker.index).keys <
      graph.size + 1 := by
    refine Nat.lt_succ_of_le ?_
    simpa [tourSearch] using Search.unopened_le_length linker.entered (List.range graph.size)
  obtain ⟨borrowed, entered, ran⟩ := @Borrowing.goThrough_of_nests linker graph
    { progress := linker.firstProgress graph, entered := linker.entered } _ _ _ _ nests _ deep rfl
    (List.nil_subset _)
  refine ⟨borrowed, entered, ?_⟩
  rw [lend]
  change (Borrowing.goThrough _ _ _ _ _).bind _ = _
  rw [ran, Lending.advance, List.append_nil]
  rfl

/-- It leaves behind what the walk leaves behind. -/
theorem walk_eq_of_lend {lending : Lending} (ran : linker.lend graph document = .ok lending) :
    linker.walk graph document = linker.finishLending document lending := by
  obtain ⟨borrowed, entered, ranToo⟩ := linker.lend_eq graph document
  cases ran.symm.trans ranToo
  change _ = linker.finish document (borrowed ++ linker.entered) _ _
  rw [← entered]
  rfl

end Linker

end ApiLinker
