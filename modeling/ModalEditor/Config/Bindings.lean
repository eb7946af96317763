/-!
# Key bindings

`Bindings` maps keys to lists of host commands.  The entries stand in the order of their keys, so
that equal maps are equal as values, and a key stands there once.
-/

namespace ModalEditor

/-- A map from keys to the host commands they run. -/
structure Bindings where
  entries : List (String × List String)
  sorted : entries.Pairwise fun a b => a.1 < b.1
deriving DecidableEq, Repr

namespace Bindings

/-- No bindings. -/
def empty : Bindings := ⟨[], .nil⟩

/-- Put an entry in its place; an entry with the same key gives way. -/
def insertSorted (k : String) (v : List String) :
    List (String × List String) → List (String × List String)
  | [] => [(k, v)]
  | e :: es =>
    if k < e.1 then (k, v) :: e :: es
    else if e.1 < k then e :: insertSorted k v es
    else (k, v) :: es

theorem mem_insertSorted {k : String} {v : List String} {es : List (String × List String)}
    {e : String × List String} (h : e ∈ insertSorted k v es) : e = (k, v) ∨ e ∈ es := by
  induction es with
  | nil => simpa [insertSorted] using h
  | cons d ds ih =>
    simp only [insertSorted] at h
    split at h
    · simpa using h
    · split at h
      · rcases List.mem_cons.1 h with rfl | h
        · simp
        · rcases ih h with rfl | h <;> simp_all
      · rcases List.mem_cons.1 h with rfl | h <;> simp_all

theorem pairwise_insertSorted (k : String) (v : List String) {es : List (String × List String)}
    (h : es.Pairwise fun a b => a.1 < b.1) :
    (insertSorted k v es).Pairwise fun a b => a.1 < b.1 := by
  induction es with
  | nil => simp [insertSorted]
  | cons d ds ih =>
    obtain ⟨hd, hds⟩ := List.pairwise_cons.1 h
    simp only [insertSorted]
    split
    · rename_i hk
      refine List.pairwise_cons.2 ⟨fun e he => ?_, h⟩
      rcases List.mem_cons.1 he with rfl | he
      · exact hk
      · exact String.lt_trans hk (hd e he)
    · split
      · rename_i hk
        refine List.pairwise_cons.2 ⟨fun e he => ?_, ih hds⟩
        rcases mem_insertSorted he with rfl | he
        · exact hk
        · exact hd e he
      · rename_i hk₁ hk₂
        have hk : k = d.1 := String.le_antisymm (String.not_lt.1 hk₂) (String.not_lt.1 hk₁)
        exact List.pairwise_cons.2 ⟨fun e he => hk ▸ hd e he, hds⟩

/-- Bind `k` to `v`, replacing an earlier binding of `k`. -/
def insert (b : Bindings) (k : String) (v : List String) : Bindings :=
  ⟨insertSorted k v b.entries, pairwise_insertSorted k v b.sorted⟩

/-- The bindings of a list; of two entries with one key the later counts. -/
def ofList (es : List (String × List String)) : Bindings :=
  es.foldl (fun b e => b.insert e.1 e.2) empty

/-- The commands bound to `k`. -/
def find? (b : Bindings) (k : String) : Option (List String) := b.entries.lookup k

end Bindings

end ModalEditor
