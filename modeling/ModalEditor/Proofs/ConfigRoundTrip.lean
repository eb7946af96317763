import ModalEditor.Config.Store
import ModalEditor.Proofs.FileContents
import ModalEditor.Proofs.TomlDocument

/-!
# Saving and loading the configuration

The document for a configuration gives the configuration back (`Config.ofDocument?_document`), and
so does the file it is saved to, whatever the file system has there (`Config.loadFrom_saveTo`).

The document is read line by line; the settings end up in the table of the document under their
keys (`Config.table`), the bindings in a table inside it.
-/

namespace ModalEditor

/-! ### Bindings -/

namespace Bindings

variable {k : String} {v : List String} {es : List (String × List String)}

/-- An entry with the greatest key goes to the end. -/
theorem insertSorted_of_lt (h : ∀ e ∈ es, e.1 < k) : insertSorted k v es = es ++ [(k, v)] := by
  induction es with
  | nil => rfl
  | cons e es ih =>
    obtain ⟨he, hes⟩ := List.forall_mem_cons.1 h
    have hnot : ¬k < e.1 := String.lt_asymm he
    rw [insertSorted, if_neg hnot, if_pos he, ih hes, List.cons_append]

theorem entries_foldl_insert (b : Bindings) (h : (b.entries ++ es).Pairwise fun a b => a.1 < b.1) :
    (es.foldl (fun b e => b.insert e.1 e.2) b).entries = b.entries ++ es := by
  induction es generalizing b with
  | nil => simp
  | cons e es ih =>
    have hlt : ∀ d ∈ b.entries, d.1 < e.1 := fun d hd =>
      (List.pairwise_append.1 h).2.2 d hd e (by simp)
    have hentries : (b.insert e.1 e.2).entries = b.entries ++ [e] := insertSorted_of_lt hlt
    rw [List.foldl_cons, ih]
    · rw [hentries, List.append_assoc, List.singleton_append]
    · rwa [hentries, List.append_assoc, List.singleton_append]

/-- The entries of bindings make up the bindings. -/
theorem ofList_entries (b : Bindings) : ofList b.entries = b := by
  have h : (ofList b.entries).entries = b.entries := entries_foldl_insert empty b.sorted
  generalize ofList b.entries = b' at h
  rcases b with ⟨entries, sorted⟩
  rcases b' with ⟨entries', sorted'⟩
  obtain rfl : entries' = entries := h
  rfl

end Bindings

/-! ### Tables -/

namespace TomlTable

variable {t es : TomlTable} {k k' : String} {v : TomlValue}

theorem replace_append (h : t.lookup k = none) (v w : TomlValue) :
    replace k w (t ++ [(k, v)]) = t ++ [(k, w)] := by
  have hother : t.map (fun e => if e.1 = k then (k, w) else e) = t.map id := by
    refine List.map_congr_left fun e he => if_neg ?_
    rintro rfl
    have := List.lookup_eq_none_iff.1 h e he
    simp at this
  simp [replace, hother]

theorem lookup_append_of_none (h : t.lookup k = none) (v : TomlValue) :
    (t ++ [(k, v)]).lookup k = some v := by
  simp [List.lookup_append, h]

end TomlTable

namespace Toml.Draft

variable {t es : TomlTable} {k k' : String} {v : TomlValue}

/-- Before any header, a new key goes to the end of the table. -/
theorem assign_root (h : t.lookup k = none) (v : TomlValue) :
    Draft.assign ⟨t, []⟩ [k] v = some ⟨t ++ [(k, v)], []⟩ := by
  simp [Draft.assign, TomlTable.assignUnder, TomlTable.change, TomlTable.assign, TomlTable.add, h]

theorem openTable_root (h : t.lookup k = none) :
    Draft.openTable ⟨t, []⟩ [k] = some ⟨t ++ [(k, .table .header [])], [k]⟩ := by
  simp [Draft.openTable, TomlTable.openTable, TomlTable.change, TomlTable.add, h]

/-- After a header, a new key goes to the end of the table that the header has opened. -/
theorem assign_header (ht : t.lookup k = none) (hes : es.lookup k' = none) (v : TomlValue) :
    Draft.assign ⟨t ++ [(k, .table .header es)], [k]⟩ [k'] v =
      some ⟨t ++ [(k, .table .header (es ++ [(k', v)]))], [k]⟩ := by
  simp [Draft.assign, TomlTable.assignUnder, TomlTable.change, TomlTable.assign, TomlTable.add,
    TomlTable.lookup_append_of_none ht, TomlTable.replace_append ht, hes]

end Toml.Draft

namespace Config

open Toml

variable {c : Config} {t t' : FileTree} {p : Path}

/-- The settings other than bindings, as they stand in a table. -/
def settings (c : Config) : TomlTable :=
  [("word_separators", .text c.wordSeparators), ("escape_sequence", .text c.escapeSequence),
    ("indent_width", .integer c.indentWidth), ("sync_unnamed_register", .boolean c.syncRegister),
    ("undo_limit", .integer c.undoLimit), ("show_line_numbers", .boolean c.showLineNumbers)]

/-- Bindings as they stand in a table. -/
def bindingsTable (es : List (String × List String)) : TomlTable :=
  es.map fun e => (e.1, .array (e.2.map .text))

/-- The table with the settings of a configuration. -/
def table (c : Config) : TomlTable :=
  c.settings ++ [("command_bindings", .table .header (bindingsTable c.commandBindings.entries))]

/-! ### Reading the document -/

theorem lookup_bindingsTable {es : List (String × List String)} {k : String}
    (h : ∀ e ∈ es, e.1 < k) : (bindingsTable es).lookup k = none := by
  rw [List.lookup_eq_none_iff]
  intro e he
  obtain ⟨d, hd, rfl⟩ := List.mem_map.1 he
  have hne : k ≠ d.1 := by
    rintro rfl
    exact String.lt_irrefl _ (h d hd)
  simpa using hne

/-- The lines with the bindings fill their table. -/
theorem readLines_bindings {base : TomlTable} {k : String} (hbase : base.lookup k = none)
    {es fs : List (String × List String)} (h : (es ++ fs).Pairwise fun a b => a.1 < b.1) :
    readLines ⟨base ++ [(k, .table .header (bindingsTable es))], [k]⟩
      (fs.flatMap fun e => writePair (writeKey e.1) (writeTexts e.2)) =
      some (base ++ [(k, .table .header (bindingsTable (es ++ fs)))]) := by
  induction fs generalizing es with
  | nil =>
    rw [List.append_nil, List.flatMap_nil, readLines]
    rfl
  | cons e fs ih =>
    have hlt : ∀ d ∈ es, d.1 < e.1 := fun d hd => (List.pairwise_append.1 h).2.2 d hd e (by simp)
    have happend : es ++ e :: fs = (es ++ [e]) ++ fs := by simp
    rw [List.flatMap_cons, readLines_writePair (shows_writeTexts e.2)
      (Draft.assign_header hbase (lookup_bindingsTable hlt) _), happend]
    rw [happend] at h
    have htable : bindingsTable es ++ [(e.1, .array (e.2.map .text))] =
        bindingsTable (es ++ [e]) := by
      simp [bindingsTable]
    rw [htable]
    exact ih h

theorem document_toList (c : Config) : c.document.toList =
    writePair (writeKey "word_separators") (writeText c.wordSeparators) ++
      (writePair (writeKey "escape_sequence") (writeText c.escapeSequence) ++
      (writePair (writeKey "indent_width") (toString c.indentWidth).toList ++
      (writePair (writeKey "sync_unnamed_register") (toString c.syncRegister).toList ++
      (writePair (writeKey "undo_limit") (toString c.undoLimit).toList ++
      (writePair (writeKey "show_line_numbers") (toString c.showLineNumbers).toList ++
      ('\n' :: '[' :: (writeKey "command_bindings" ++ ']' :: '\n' ::
        c.commandBindings.entries.flatMap fun e =>
          writePair (writeKey e.1) (writeTexts e.2)))))))) := by
  have hkey : ∀ k ∈ ["word_separators", "escape_sequence", "indent_width", "sync_unnamed_register",
      "undo_limit", "show_line_numbers", "command_bindings"], writeKey k = k.toList := by decide
  simp only [List.forall_mem_cons] at hkey
  obtain ⟨hseparators, hescape, hindent, hsync, hundo, hnumbers, hbindings, -⟩ := hkey
  have hheader : "\n[command_bindings]\n".toList =
      '\n' :: '[' :: ("command_bindings".toList ++ [']', '\n']) := by decide
  rw [hseparators, hescape, hindent, hsync, hundo, hnumbers, hbindings, document,
    String.toList_ofList, hheader]
  simp only [List.append_assoc, List.cons_append, List.nil_append]

/-- **The document for a configuration is read as the table with its settings.** -/
theorem ofDocument?_table (h : c.isWritable = true) :
    TomlTable.ofDocument? c.document.toList = some c.table := by
  have hsize : c.indentWidth < 0x8000000000000000 ∧ c.undoLimit < 0x8000000000000000 := by
    rw [isWritable, maxSize, Bool.and_eq_true, decide_eq_true_iff, decide_eq_true_iff] at h
    omega
  have hbegin : TomlTable.ofDocument? c.document.toList = readLines {} c.document.toList := by
    rw [document_toList]
    rfl
  rw [hbegin, document_toList,
    readLines_writePair (shows_writeText _) (Draft.assign_root (t := []) rfl _),
    readLines_writePair (shows_writeText _) (Draft.assign_root rfl _),
    readLines_writePair (shows_number hsize.1) (Draft.assign_root rfl _),
    readLines_writePair (shows_boolean _) (Draft.assign_root rfl _),
    readLines_writePair (shows_number hsize.2) (Draft.assign_root rfl _),
    readLines_writePair (shows_boolean _) (Draft.assign_root rfl _),
    readLines_header (Draft.openTable_root rfl)]
  have hnone : c.settings.lookup "command_bindings" = none := rfl
  have hsorted : List.Pairwise (fun a b : String × List String => a.1 < b.1)
      ([] ++ c.commandBindings.entries) := c.commandBindings.sorted
  exact readLines_bindings hnone hsorted

/-! ### The settings in the table -/

theorem asTexts?_map (ts : List String) :
    TomlValue.asTexts? (.array (ts.map .text)) = some ts := by
  have hmap : ts.mapM (TomlValue.asText? ∘ TomlValue.text) = some ts := by
    induction ts with
    | nil => rfl
    | cons t ts ih =>
      rw [List.mapM_cons, ih]
      rfl
  rw [TomlValue.asTexts?, List.mapM_map, hmap]

theorem asBindings?_bindingsTable (b : Bindings) (origin : TableOrigin) :
    TomlValue.asBindings? (.table origin (bindingsTable b.entries)) = some b := by
  have hmap (es : List (String × List String)) : (bindingsTable es).mapM (fun e =>
      (TomlValue.asTexts? e.2).map fun names => (e.1, names)) = some es := by
    induction es with
    | nil => rfl
    | cons e es ih =>
      rw [bindingsTable, List.map_cons, List.mapM_cons, asTexts?_map]
      simp only [bindingsTable] at ih
      rw [ih]
      rfl
  rw [TomlValue.asBindings?, hmap, Option.map_some, Bindings.ofList_entries]

theorem setting?_of_lookup {α : Type} {t : TomlTable} {k : String} {v : TomlValue}
    (h : t.lookup k = some v) (get : TomlValue → Option α) (standard : α) :
    setting? t k get standard = get v := by
  rw [setting?, h]

/-- **The table with the settings of a configuration gives the configuration.** -/
theorem ofTable?_table (c : Config) : ofTable? c.table = some c := by
  have hbindings := asBindings?_bindingsTable c.commandBindings .header
  rw [ofTable?, setting?_of_lookup rfl, setting?_of_lookup rfl, setting?_of_lookup rfl,
    setting?_of_lookup rfl, setting?_of_lookup rfl, setting?_of_lookup rfl, setting?_of_lookup rfl]
  simp [TomlValue.asText?, TomlValue.asSize?, TomlValue.asBoolean?, hbindings]

/-- **The document for a configuration gives the configuration back.** -/
theorem ofDocument?_document (h : c.isWritable = true) : ofDocument? c.document = some c := by
  rw [ofDocument?, ofDocument?_table h]
  exact ofTable?_table c

/-! ### Saving and loading -/

/-- **What is saved is loaded.**  If the directories that the configuration lies in can be made, and
a file can be written in there, then saving it succeeds, and loading it again gives the same
configuration. -/
theorem loadFrom_saveTo (hsize : c.indentWidth ≤ maxSize ∧ c.undoLimit ≤ maxSize)
    (hparents : makeParents t p = (t', none)) {l : Location} (hplace : t'.writable p = .ok l) :
    ∃ saved, c.saveTo t p = (saved, none) ∧ loadFrom saved p = .ok c := by
  have hwritable : c.isWritable = true := by simp [isWritable, hsize]
  have hwrite : t'.writeText p c.document = .ok (t'.put l (.file c.document.toUTF8)) := by
    rw [FileTree.writeText, FileTree.write, hplace]
    rfl
  refine ⟨t'.put l (.file c.document.toUTF8), ?_, ?_⟩
  · rw [saveTo, hparents]
    dsimp only
    rw [if_pos hwritable, hwrite]
  · rw [loadFrom, FileTree.readText_writeText hwrite]
    dsimp only
    rw [ofDocument?_document hwritable]

/-- Texts with quotes, backslashes and control characters are loaded as they were saved. -/
theorem loadFrom_saveTo_quoted :
    let c : Config :=
      { wordSeparators := "'\"'''\"\"\"\\\n\r\t\x00é", escapeSequence := "", indentWidth := 0
        undoLimit := 0x7FFFFFFFFFFFFFFF
        commandBindings := .ofList [("'\t", ["write", "a\"'b"]), ("u", [])] }
    ∃ saved, c.saveTo {} ⟨"settings/editor.toml"⟩ = (saved, none) ∧
      loadFrom saved ⟨"settings/editor.toml"⟩ = .ok c := by
  have hparents : makeParents {} ⟨"settings/editor.toml"⟩ =
      (⟨[(["settings"], .directory)], []⟩, none) := by rfl
  have hplace : FileTree.writable ⟨[(["settings"], .directory)], []⟩ ⟨"settings/editor.toml"⟩ =
      .ok ["settings", "editor.toml"] := by rfl
  exact loadFrom_saveTo (by decide) hparents hplace

end Config

end ModalEditor
