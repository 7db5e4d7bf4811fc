import Mathlib.Data.List.DropRight
import Rdst.Indexes.Merging

namespace Rdst.Indexes

open PyText Regex

section Texts

variable (tables : Tables)

/-- What `_index_name` keeps of a table and its columns: their word characters and one underscore for every run of others,
up to 63 characters. -/
def slug (table : Text) (columns : List Text) : Text :=
  ((collapse (fun c => !isWord tables c) '_' false
    ("idx_".toList ++ table ++ "_".toList ++ join "_".toList columns)).rdropWhile (· = '_')).take 63

theorem suggestedName_eq (table : Text) (columns : List Text) :
    suggestedName tables table columns = slug tables table columns := by
  unfold suggestedName slug
  rw [sub_run]
  -- the name starts with a letter, so that nothing goes at its start
  have first : isWord tables 'i' = true := rfl
  have start : collapse (fun c => !isWord tables c) '_' false
      ("idx_".toList ++ table ++ "_".toList ++ join "_".toList columns) =
        'i' :: collapse (fun c => !isWord tables c) '_' false
          ("dx_".toList ++ table ++ "_".toList ++ join "_".toList columns) := by
    show collapse _ _ _ ('i' :: ("dx_".toList ++ table ++ "_".toList ++ join "_".toList columns)) = _
    simp [collapse, first]
  rw [start]
  rfl

end Texts

variable (tables : Tables) (lower digest : Text → Text) (inputs : Inputs) (advice : Advice)

/-- The name of the index that an add creates. -/
def Add.indexName (add : Add) : Text := suggestedName tables add.table add.columns

/-- The id of a drop. -/
def Drop.id (drop : Drop) : Text := idOf digest "drop" (norm lower drop.index.table) [drop.index.indexName]

def Drop.idText (drop : Drop) : Text := Indexes.idText (norm lower drop.index.table) [drop.index.indexName]

/-- Different adds have different ids and names, and the drops of different indexes different ids. -/
def ToldApart : Prop :=
  (∀ a ∈ (buildAdditions tables lower digest inputs advice).all,
    ∀ b ∈ (buildAdditions tables lower digest inputs advice).all, a.shape ≠ b.shape →
      a.id ≠ b.id ∧ a.indexName tables ≠ b.indexName tables) ∧
    ∀ d ∈ (buildPlan tables lower inputs).drop, ∀ e ∈ (buildPlan tables lower inputs).drop,
      ident lower d.index ≠ ident lower e.index → d.id lower digest ≠ e.id lower digest

/-- The tables and columns of different adds are written differently, both with their separators and as names; and so are
the tables and names of different indexes to drop. -/
def WrittenApart : Prop :=
  (∀ a ∈ (buildAdditions tables lower digest inputs advice).all,
    ∀ b ∈ (buildAdditions tables lower digest inputs advice).all, a.shape ≠ b.shape →
      idText a.table a.columns ≠ idText b.table b.columns ∧
        slug tables a.table a.columns ≠ slug tables b.table b.columns) ∧
    ∀ d ∈ (buildPlan tables lower inputs).drop, ∀ e ∈ (buildPlan tables lower inputs).drop,
      ident lower d.index ≠ ident lower e.index → d.idText lower ≠ e.idText lower

/-- The texts of which a plan takes the digest. -/
def idTexts : List Text :=
  ((buildAdditions tables lower digest inputs advice).all.map fun add => idText add.table add.columns) ++
    (buildPlan tables lower inputs).drop.map fun drop => drop.idText lower

variable {tables lower digest inputs advice}

theorem add_id {add : Add} (member : add ∈ (buildAdditions tables lower digest inputs advice).all) :
    add.id = idOf digest "add" add.table add.columns := by
  obtain ⟨entry, -, -, rfl⟩ := mem_worthwhile.mp (mem_all.mp member)
  rfl

theorem idOf_inj {kind : String} {table table' : Text} {parts parts' : List Text}
    (apart : digest (idText table parts) = digest (idText table' parts') → idText table parts = idText table' parts') :
    idOf digest kind table parts = idOf digest kind table' parts' ↔ idText table parts = idText table' parts' := by
  unfold idOf
  rw [List.append_cancel_left_eq]
  exact ⟨apart, congrArg digest⟩

/-- A read of the users by a word in their mail, for which a GIN index is suggested. -/
def byWord : Query where
  key := "w".toList
  name := "w".toList
  share := 1 / 2
  suggestions := [⟨"users".toList, ["email".toList], "gin".toList, some 50, true, [], []⟩]

def unread (schema : String) : Index := { onEmail schema "one" 0 with windowScans := 0, columns := ["name".toList] }

end Rdst.Indexes
