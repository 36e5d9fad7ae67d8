import ApiLinker.Search
import Mathlib.Data.List.Forall2

/-!
What a search visits and opens.

`Runs` is the search as a relation, with one case for each thing that a step can do; everything else
is an induction over it.  A search visits all that can be reached and nothing else, opens every key
that it meets, and keeps the contents of each key together in their order.
-/

namespace ApiLinker.Search

variable {α κ : Type} {search : Search α κ}
variable {opened after : List κ} {items visited : List α}

/-- A search that has opened `opened` and goes through `items` visits `visited` and has then opened
`after`. -/
inductive Runs (search : Search α κ) : List κ → List α → List α → List κ → Prop where
  | nil (opened : List κ) : Runs search opened [] [] opened
  | pass {opened after : List κ} {waiting visited : List α} (item : α)
      (shut : ∀ key, search.key? item = some key → key ∈ search.keys → key ∈ opened)
      (rest : Runs search opened waiting visited after) :
      Runs search opened (item :: waiting) (item :: visited) after
  | enter {opened after : List κ} {waiting visited : List α} {item : α} {key : κ}
      (found : search.key? item = some key) (isKey : key ∈ search.keys) (closed : key ∉ opened)
      (rest : Runs search (key :: opened) (search.contents item key ++ waiting) visited after) :
      Runs search opened (item :: waiting) (item :: visited) after

theorem runs_run [DecidableEq κ] (search : Search α κ) (opened : List κ) (items : List α) :
    Runs search opened items (search.run opened items).1 (search.run opened items).2 := by
  fun_induction search.run opened items with
  | case1 opened => exact .nil opened
  | case2 opened item waiting unnamed visited after result ih =>
      rw [result] at ih
      exact .pass item (by simp [unnamed]) ih
  | case3 opened item waiting key found isFresh visited after result ih =>
      rw [result] at ih
      exact .enter found isFresh.1 isFresh.2 ih
  | case4 opened item waiting key found isFresh visited after result ih =>
      rw [result] at ih
      refine .pass item (fun other named isKey => ?_) ih
      have same : key = other := Option.some.inj (found.symm.trans named)
      exact Decidable.byContradiction fun closed => isFresh (same ▸ ⟨isKey, closed⟩)

namespace Runs

theorem items_visited (runs : Runs search opened items visited after) :
    ∀ item ∈ items, item ∈ visited := by
  induction runs with
  | nil => exact fun _ member => member
  | pass item _ _ ih =>
      intro other member
      rcases List.mem_cons.mp member with rfl | waits
      · exact List.mem_cons_self
      · exact List.mem_cons_of_mem _ (ih other waits)
  | enter _ _ _ _ ih =>
      intro other member
      rcases List.mem_cons.mp member with rfl | waits
      · exact List.mem_cons_self
      · exact List.mem_cons_of_mem _ (ih other (List.mem_append_right _ waits))

theorem opened_kept (runs : Runs search opened items visited after) :
    ∀ key ∈ opened, key ∈ after := by
  induction runs with
  | nil => exact fun _ member => member
  | pass _ _ _ ih => exact ih
  | enter _ _ _ _ ih => exact fun key member => ih key (List.mem_cons_of_mem _ member)

/-- A search leaves no key shut that it has met. -/
theorem met_opened (runs : Runs search opened items visited after) {item : α} {key : κ}
    (met : item ∈ visited) (found : search.key? item = some key) (isKey : key ∈ search.keys) :
    key ∈ after := by
  induction runs with
  | nil => cases met
  | pass first shut rest ih =>
      rcases List.mem_cons.mp met with rfl | later
      · exact rest.opened_kept key (shut key found isKey)
      · exact ih later
  | enter named _ _ rest ih =>
      rcases List.mem_cons.mp met with rfl | later
      · rw [Option.some.inj (found.symm.trans named)]
        exact rest.opened_kept _ List.mem_cons_self
      · exact ih later

/-- A key is only opened by an item that holds it, and then its contents are visited. -/
theorem opened_by (runs : Runs search opened items visited after) {key : κ} (isOpen : key ∈ after) :
    key ∈ opened ∨ key ∈ search.keys ∧ ∃ item ∈ visited, search.key? item = some key ∧
      ∀ inner ∈ search.contents item key, inner ∈ visited := by
  induction runs with
  | nil => exact .inl isOpen
  | pass first _ _ ih =>
      rcases ih isOpen with before | ⟨isKey, item, met, found, inside⟩
      · exact .inl before
      · exact .inr ⟨isKey, item, List.mem_cons_of_mem _ met, found,
          fun inner member => List.mem_cons_of_mem _ (inside inner member)⟩
  | @enter _ _ _ _ first entered named isKey _ rest ih =>
      rcases ih isOpen with before | ⟨isKey, item, met, found, inside⟩
      · rcases List.mem_cons.mp before with rfl | before
        · refine .inr ⟨isKey, first, List.mem_cons_self, named, fun inner member => ?_⟩
          exact List.mem_cons_of_mem _ (rest.items_visited inner (List.mem_append_left _ member))
        · exact .inl before
      · exact .inr ⟨isKey, item, List.mem_cons_of_mem _ met, found,
          fun inner member => List.mem_cons_of_mem _ (inside inner member)⟩

/-- What holds of the first items and goes over from an item to what it opens to holds of all that
is visited. -/
theorem visited_of {P : α → Prop} (runs : Runs search opened items visited after)
    (start : ∀ item ∈ items, P item)
    (step : ∀ item key, P item → search.key? item = some key → key ∈ search.keys → key ∉ opened →
      ∀ inner ∈ search.contents item key, P inner) :
    ∀ item ∈ visited, P item := by
  induction runs with
  | nil => exact start
  | pass first _ _ ih =>
      intro item met
      rcases List.mem_cons.mp met with rfl | later
      · exact start _ List.mem_cons_self
      · exact ih (fun other waits => start other (List.mem_cons_of_mem _ waits)) step item later
  | enter named isKey closed _ ih =>
      have first := start _ List.mem_cons_self
      intro item met
      rcases List.mem_cons.mp met with rfl | later
      · exact first
      · refine ih (fun other waits => ?_) (fun outer key holds found known fresh => ?_) item later
        · rcases List.mem_append.mp waits with inside | waits
          · exact step _ _ first named isKey closed other inside
          · exact start other (List.mem_cons_of_mem _ waits)
        · exact step outer key holds found known fun before =>
            fresh (List.mem_cons_of_mem _ before)

theorem nodup (runs : Runs search opened items visited after) (distinct : opened.Nodup) :
    after.Nodup := by
  induction runs with
  | nil => exact distinct
  | pass _ _ _ ih => exact ih distinct
  | enter _ _ closed _ ih => exact ih (List.nodup_cons.mpr ⟨closed, distinct⟩)

/-- The keys that a search opens are new to it, each once. -/
theorem exists_new (runs : Runs search opened items visited after) :
    ∃ new, after = new ++ opened ∧ new.Nodup ∧ ∀ key ∈ new, key ∉ opened := by
  induction runs with
  | nil => exact ⟨[], rfl, List.nodup_nil, fun _ never => by cases never⟩
  | pass _ _ _ ih => exact ih
  | @enter opened _ _ _ _ key _ _ closed _ ih =>
      obtain ⟨new, same, distinct, fresh⟩ := ih
      have notAgain : key ∉ new := fun again => fresh key again List.mem_cons_self
      refine ⟨new ++ [key], by simp [same], ?_, fun other member => ?_⟩
      · exact (List.perm_append_singleton key new).nodup_iff.mpr
          (List.nodup_cons.mpr ⟨notAgain, distinct⟩)
      · rcases List.mem_append.mp member with later | first
        · exact fun before => fresh other later (List.mem_cons_of_mem _ before)
        · rwa [List.mem_singleton.mp first]

/-- Two searches with related items visit related items.  The second one may have more keys, which
open to nothing. -/
theorem visited_related {left right : Search α κ} {R : α → α → Prop}
    {openedToo afterToo : List κ} {others visitedToo : List α}
    (runs : Runs left opened items visited after)
    (again : Runs right openedToo others visitedToo afterToo)
    (related : List.Forall₂ R items others)
    (sameKey : ∀ item other, R item other → right.key? other = left.key? item)
    (isKeyToo : ∀ key ∈ left.keys, key ∈ right.keys)
    (inside : ∀ item other key, R item other → key ∈ after →
      List.Forall₂ R (left.contents item key) (right.contents other key))
    (bare : ∀ other key, key ∉ left.keys → right.contents other key = [])
    (sameOpened : ∀ key ∈ left.keys, key ∈ opened ↔ key ∈ openedToo) :
    List.Forall₂ R visited visitedToo := by
  induction runs generalizing openedToo others visitedToo with
  | nil =>
      cases related
      cases again
      exact .nil
  | pass item shut _ ih =>
      cases related with
      | cons holds related =>
          cases again with
          | pass _ _ rest => exact .cons holds (ih rest related inside sameOpened)
          | @enter _ _ _ _ _ key found _ closed rest =>
              have noKey : key ∉ left.keys := fun isKey => closed ((sameOpened key isKey).mp
                (shut key ((sameKey _ _ holds).symm.trans found) isKey))
              rw [bare _ key noKey, List.nil_append] at rest
              refine .cons holds (ih rest related inside fun other isKey => ?_)
              have different : other ≠ key := fun same => noKey (same ▸ isKey)
              rw [sameOpened other isKey, List.mem_cons]
              exact ⟨.inr, fun member => member.resolve_left different⟩
  | @enter _ _ _ _ _ key found isKey closed run ih =>
      cases related with
      | cons holds related =>
          have foundToo := (sameKey _ _ holds).trans found
          cases again with
          | pass _ shut =>
              exact absurd ((sameOpened key isKey).mpr (shut key foundToo (isKeyToo key isKey)))
                closed
          | enter named _ _ rest =>
              cases foundToo.symm.trans named
              have within := inside _ _ key holds (run.opened_kept key List.mem_cons_self)
              refine .cons holds
                (ih rest (List.rel_append within related) inside fun other isKey => ?_)
              rw [List.mem_cons, List.mem_cons, sameOpened other isKey]

section

/-! Items that are owned by the key they come from. -/

variable [DecidableEq κ] {owner : α → Option κ}

/-- The search adds no items to those of keys that were open before or stay shut, nor to those that
have no owner. -/
theorem filter_of_not_entered (runs : Runs search opened items visited after)
    (owned : ∀ item key, ∀ inner ∈ search.contents item key, owner inner = some key)
    {who : Option κ} (still : ∀ key, who = some key → key ∈ opened ∨ key ∉ after) :
    visited.filter (fun item => owner item = who) = items.filter fun item => owner item = who := by
  induction runs with
  | nil => rfl
  | pass item _ _ ih => simp only [List.filter_cons, ih still]
  | @enter opened after waiting visited item key _ _ closed rest ih =>
      have later : ∀ other, who = some other → other ∈ key :: opened ∨ other ∉ after := by
        intro other same
        exact (still other same).imp_left (List.mem_cons_of_mem _)
      have foreign : (search.contents item key).filter (fun inner => owner inner = who) = [] := by
        apply List.filter_eq_nil_iff.mpr
        intro inner member
        simp only [decide_eq_true_eq]
        intro same
        rcases still key (same ▸ owned item key inner member) with before | never
        · exact closed before
        · exact never (rest.opened_kept key List.mem_cons_self)
      simp only [List.filter_cons, ih later, List.filter_append, foreign, List.nil_append]

/-- All items that a newly opened key owns are its contents, in their order, for the item that
opened it. -/
theorem filter_of_entered (runs : Runs search opened items visited after)
    (owned : ∀ item key, ∀ inner ∈ search.contents item key, owner inner = some key)
    (known : ∀ item ∈ items, ∀ key, owner item = some key → key ∈ opened)
    {key : κ} (isOpen : key ∈ after) (closed : key ∉ opened) :
    ∃ item ∈ visited, search.key? item = some key ∧
      visited.filter (fun other => owner other = some key) = search.contents item key := by
  induction runs with
  | nil => exact absurd isOpen closed
  | pass first _ _ ih =>
      have foreign : owner first ≠ some key :=
        fun same => closed (known first List.mem_cons_self key same)
      obtain ⟨item, met, named, found⟩ :=
        ih (fun other waits => known other (List.mem_cons_of_mem _ waits)) isOpen closed
      exact ⟨item, List.mem_cons_of_mem _ met, named,
        by simpa [List.filter_cons, foreign] using found⟩
  | @enter opened after waiting visited first entered isNamed _ _ rest ih =>
      have foreign : owner first ≠ some key :=
        fun same => closed (known first List.mem_cons_self key same)
      have waitsForeign : ∀ other ∈ waiting, owner other ≠ some key :=
        fun other waits same => closed (known other (List.mem_cons_of_mem _ waits) key same)
      by_cases same : key = entered
      · subst same
        refine ⟨first, List.mem_cons_self, isNamed, ?_⟩
        have still : ∀ other, some key = some other → other ∈ key :: opened ∨ other ∉ after :=
          fun other equal => .inl (Option.some.inj equal ▸ List.mem_cons_self)
        have kept := rest.filter_of_not_entered owned still
        have own : (search.contents first key).filter (fun inner => owner inner = some key) =
            search.contents first key :=
          List.filter_eq_self.mpr fun inner member => decide_eq_true (owned first key inner member)
        have none : waiting.filter (fun other => owner other = some key) = [] :=
          List.filter_eq_nil_iff.mpr fun other waits => by simpa using waitsForeign other waits
        simp only [List.filter_cons, foreign, decide_false, Bool.false_eq_true, ↓reduceIte, kept,
          List.filter_append, own, none, List.append_nil]
      · have stillClosed : key ∉ entered :: opened := by simp [same, closed]
        obtain ⟨item, met, named, found⟩ := ih (fun other waits => by
          intro holder owns
          rcases List.mem_append.mp waits with inside | waits
          · exact Option.some.inj ((owned first entered other inside).symm.trans owns) ▸
              List.mem_cons_self
          · exact List.mem_cons_of_mem _ (known other (List.mem_cons_of_mem _ waits) holder owns))
          isOpen stillClosed
        exact ⟨item, List.mem_cons_of_mem _ met, named,
          by simpa [List.filter_cons, foreign] using found⟩

end

end Runs

end ApiLinker.Search
