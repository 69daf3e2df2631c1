import ApiDocs.Proofs.SameRequest
/-!
# Rows of tables

A row of a table is meant to be one line with as many bars as the titles have, where a bar counts unless an odd number of
backslashes stands just before it. What breaks a row is counted cell by cell (`Cell.strayBars`, `Cell.strayBreaks`): of
a cell that is printed as it is, its bars that count and its line ends; of one that is escaped, just the bars that did
not count before, which the added backslash makes count, and the carriage returns without a line feed. So the rows of a
description keep their shape exactly if the texts they are made of have none of these (`rows_keep_shape`).
-/
namespace ApiDocs.Description

/-! ## Bars and line ends -/

/-- Whether an odd number of backslashes stands at the end of a text, which is given from its end. -/
def oddBackslashes (before : List Char) : Bool :=
  (before.takeWhile fun c => c == '\\').length % 2 == 1

/-- How many bars of a text have an odd number of backslashes just before them (or an even one), when some text, given
from its end, stands before it. -/
def barsBehind (odd : Bool) : List Char → List Char → Nat
  | _, [] => 0
  | before, c :: cs => (if c = '|' ∧ oddBackslashes before = odd then 1 else 0) + barsBehind odd (c :: before) cs

/-- How many bars a table takes for the bounds of columns. -/
def columnBars (s : String) : Nat :=
  barsBehind false [] s.toList

/-- How many bars are escaped. -/
def escapedBars (s : String) : Nat :=
  barsBehind true [] s.toList

/-- How many line feeds and carriage returns a text has. -/
def lineBreaks (s : String) : Nat :=
  s.toList.countP fun c => c == '\n' || c == '\r'

/-- How many carriage returns have no line feed behind them. -/
def loneReturnsIn : List Char → Nat
  | [] => 0
  | c :: cs => (if c = '\r' ∧ cs.head? ≠ some '\n' then 1 else 0) + loneReturnsIn cs

def loneReturns (s : String) : Nat :=
  loneReturnsIn s.toList

variable {odd : Bool} {before before' cs ds : List Char} {c : Char}

theorem oddBackslashes_cons (c : Char) (before : List Char) :
    oddBackslashes (c :: before) = (c == '\\' && !oddBackslashes before) := by
  by_cases hc : c = '\\'
  · simp only [oddBackslashes, hc, List.takeWhile_cons, beq_self_eq_true, if_true, List.length_cons, Bool.true_and]
    rcases Nat.mod_two_eq_zero_or_one (before.takeWhile fun c => c == '\\').length with h | h <;>
      simp [Nat.add_mod, h]
  · simp [oddBackslashes, hc]

/-- Of what stands before, only the parity of its backslashes counts. -/
theorem barsBehind_congr (h : oddBackslashes before = oddBackslashes before') :
    barsBehind odd before cs = barsBehind odd before' cs := by
  induction cs generalizing before before' with
  | nil => rfl
  | cons c cs ih =>
    have hnext : oddBackslashes (c :: before) = oddBackslashes (c :: before') := by
      rw [oddBackslashes_cons, h, ← oddBackslashes_cons]
    rw [barsBehind, barsBehind, h, ih hnext]

theorem barsBehind_append :
    barsBehind odd before (cs ++ ds) = barsBehind odd before cs + barsBehind odd (cs.reverse ++ before) ds := by
  induction cs generalizing before with
  | nil => simp [barsBehind]
  | cons c cs ih => simp [barsBehind, ih, Nat.add_assoc]

theorem loneReturnsIn_append (h : ds.head? ≠ some '\n') : loneReturnsIn (cs ++ ds) = loneReturnsIn cs + loneReturnsIn ds := by
  induction cs with
  | nil => simp [loneReturnsIn]
  | cons c cs ih =>
    cases cs with
    | nil => simp [loneReturnsIn, h]
    | cons c' cs => simp [loneReturnsIn] at ih ⊢; omega

/-! ## Escaping -/

/-- An escaped text has for its column bars those that were escaped before. -/
theorem barsBehind_escapeCellChars (h : oddBackslashes before = oddBackslashes before') :
    barsBehind false before (escapeCellChars cs) = barsBehind true before' cs := by
  induction cs using escapeCellChars.induct generalizing before before' with
  | case1 => rfl
  | case2 rest ih =>
    have hnext : oddBackslashes ("<br/>".toList.reverse ++ before) = oddBackslashes ('\n' :: '\r' :: before') := by
      simp [oddBackslashes]
    rw [escapeCellChars, barsBehind_append, barsBehind, barsBehind, ih hnext]
    simp [barsBehind]
  | case3 rest hcrlf ih =>
    have hnext : oddBackslashes ('|' :: '\\' :: before) = oddBackslashes ('|' :: before') := by
      simp [oddBackslashes_cons]
    rw [escapeCellChars, if_pos rfl, barsBehind, barsBehind, barsBehind, ih hnext]
    · simp [oddBackslashes_cons, h]
    · exact hcrlf
  | case4 rest hcrlf _ ih =>
    have hnext : oddBackslashes ("<br/>".toList.reverse ++ before) = oddBackslashes ('\n' :: before') := by
      simp [oddBackslashes]
    rw [escapeCellChars, if_neg (by decide), if_pos rfl, barsBehind_append, barsBehind, ih hnext]
    · simp [barsBehind]
    · exact hcrlf
  | case5 c rest hcrlf hbar hfeed ih =>
    have hnext : oddBackslashes (c :: before) = oddBackslashes (c :: before') := by
      rw [oddBackslashes_cons, h, ← oddBackslashes_cons]
    rw [escapeCellChars, if_neg hbar, if_neg hfeed, barsBehind, barsBehind, ih hnext]
    · simp [hbar]
    · exact hcrlf

theorem columnBars_escapeCell (s : String) : columnBars (escapeCell s) = escapedBars s := by
  rw [columnBars, escapeCell, String.toList_ofList, escapedBars]
  exact barsBehind_escapeCellChars rfl

/-- An escaped text keeps the carriage returns that end no line. -/
theorem lineBreaks_escapeCell (s : String) : lineBreaks (escapeCell s) = loneReturns s := by
  have main : ∀ cs, (escapeCellChars cs).countP (fun c => c == '\n' || c == '\r') = loneReturnsIn cs := by
    intro cs
    induction cs using escapeCellChars.induct with
    | case1 => rfl
    | case2 rest ih => simp [escapeCellChars, loneReturnsIn, ih]
    | case3 rest _ ih => simp [escapeCellChars, loneReturnsIn, ih]
    | case4 rest _ _ ih => simp [escapeCellChars, loneReturnsIn, ih]
    | case5 c rest hcrlf hbar hfeed ih =>
      have hlone : (c = '\r' ∧ rest.head? ≠ some '\n') ↔ c = '\r' := by
        refine and_iff_left_of_imp fun hc hhead => ?_
        obtain ⟨rest', rfl⟩ := List.head?_eq_some_iff.1 hhead
        exact hcrlf rest' hc rfl
      rw [escapeCellChars, if_neg hbar, if_neg hfeed, List.countP_cons, ih, loneReturnsIn, Nat.add_comm]
      · simp [hlone, hfeed]
      · exact hcrlf
  rw [lineBreaks, escapeCell, String.toList_ofList, main, loneReturns]

/-! ## Texts with spaces -/

/-- Whether what is counted in a text is counted apart on the two sides of a space. -/
structure Spaced (count : String → Nat) : Prop where
  empty : count "" = 0
  space : ∀ s t, count (s ++ " " ++ t) = count s + count t

theorem spaced_barsBehind (odd : Bool) : Spaced fun s => barsBehind odd [] s.toList := by
  refine ⟨rfl, fun s t => ?_⟩
  have hspace : oddBackslashes ((s ++ " ").toList.reverse ++ []) = oddBackslashes [] := by
    simp [oddBackslashes]
  rw [String.toList_append, barsBehind_append, barsBehind_congr hspace, String.toList_append, barsBehind_append]
  simp [barsBehind]

theorem spaced_columnBars : Spaced columnBars := spaced_barsBehind false

theorem spaced_escapedBars : Spaced escapedBars := spaced_barsBehind true

theorem spaced_lineBreaks : Spaced lineBreaks :=
  ⟨rfl, fun s t => by simp [lineBreaks]⟩

theorem spaced_loneReturns : Spaced loneReturns := by
  refine ⟨rfl, fun s t => ?_⟩
  simp only [loneReturns, String.toList_append, List.append_assoc]
  rw [loneReturnsIn_append (by simp)]
  simp [loneReturnsIn]

/-- The constants that the description of a field lists, those of its enumeration. -/
def constantsOf (models : Models) (f : Field) : List String :=
  if f.kind = .enum then ((models.get? f.classPath).map (·.constants)).getD [] else []

section
variable {count : String → Nat} (h : Spaced count)
include h

theorem Spaced.join (cells : List String) (rest : String) :
    count (Text.join " | " cells ++ " " ++ rest) =
      (cells.map count).sum + (cells.length - 1) * count "|" + count rest := by
  induction cells using Text.join.induct with
  | case1 =>
    rw [Text.join, h.space, h.empty]
    simp
  | case2 s => simp [Text.join, h.space]
  | case3 s t r ih =>
    have hjoin : Text.join " | " (s :: t :: r) ++ " " ++ rest =
        s ++ " " ++ ("|" ++ " " ++ (Text.join " | " (t :: r) ++ " " ++ rest)) := by
      rw [Text.join, show " | " = " " ++ "|" ++ " " from rfl]
      simp only [String.append_assoc]
    rw [hjoin, h.space, h.space, ih]
    simp only [List.map_cons, List.sum_cons, List.length_cons, Nat.add_sub_cancel]
    ring

theorem Spaced.tableLine {cells : List String} (hne : cells ≠ []) :
    count (tableLine cells) = (cells.map count).sum + cells.length * count "|" + count "|\n" := by
  have hline : Description.tableLine cells = "|" ++ " " ++ (Text.join " | " cells ++ " " ++ "|\n") := by
    rw [Description.tableLine, show "| " = "|" ++ " " from rfl, show " |\n" = " " ++ "|\n" from rfl]
    simp only [String.append_assoc]
  obtain ⟨n, hn⟩ := Nat.exists_eq_add_of_lt (List.length_pos_of_ne_nil hne)
  rw [hline, h.space, h.join, hn, Nat.zero_add, Nat.add_sub_cancel]
  ring

/-- The description of a field has what its own text and the listed constants have. -/
theorem Spaced.fieldDescription (hbar : count "|" = 0) (hopen : count "(" = 0) (hclose : count ")" = 0)
    (models : Models) (f : Field) :
    count (fieldDescription models f) = count f.description + ((constantsOf models f).map count).sum := by
  have hlisting : ∀ constants,
      count ("( " ++ Text.join " | " constants ++ " )") = (constants.map count).sum := by
    intro constants
    have hspaces : "( " ++ Text.join " | " constants ++ " )" = "(" ++ " " ++ (Text.join " | " constants ++ " " ++ ")") := by
      rw [show "( " = "(" ++ " " from rfl, show " )" = " " ++ ")" from rfl]
      simp only [String.append_assoc]
    rw [hspaces, h.space, h.join, hbar, hopen, hclose]
    simp
  unfold Description.fieldDescription constantsOf
  split
  next m hkind hget =>
    rw [if_pos hkind, hget]
    dsimp only [Option.map_some, Option.getD_some]
    split
    next hempty => rw [hlisting, String.isEmpty_iff.1 hempty, h.empty, Nat.zero_add]
    next => rw [h.space, hlisting]
  next hnone =>
    split
    next hkind =>
      cases hget : models.get? f.classPath with
      | none => simp
      | some m => exact absurd hget (hnone m hkind)
    next => simp

end

/-! ## Cells -/

/-- What stands in a cell: a text as it is, or one that is escaped. -/
inductive Cell where
  | plain (text : String)
  | escaped (text : String)
  deriving DecidableEq, Repr

namespace Cell

def print : Cell → String
  | plain text => text
  | escaped text => escapeCell text

/-- The bars of the cell that a table takes for bounds of columns. -/
def strayBars : Cell → Nat
  | plain text => columnBars text
  | escaped text => escapedBars text

/-- The line ends that are left in the cell. -/
def strayBreaks : Cell → Nat
  | plain text => lineBreaks text
  | escaped text => loneReturns text

/-- Whether a row keeps its shape with the cell. -/
def Fits (c : Cell) : Prop :=
  c.strayBars = 0 ∧ c.strayBreaks = 0

instance (c : Cell) : Decidable c.Fits :=
  inferInstanceAs (Decidable (_ ∧ _))

theorem columnBars_print (c : Cell) : columnBars c.print = c.strayBars := by
  cases c with
  | plain text => rfl
  | escaped text => exact columnBars_escapeCell text

theorem lineBreaks_print (c : Cell) : lineBreaks c.print = c.strayBreaks := by
  cases c with
  | plain text => rfl
  | escaped text => exact lineBreaks_escapeCell text

theorem fits_yesNo (b : Bool) : (plain (yesNo b)).Fits := by
  cases b <;> decide

end Cell

def ParameterRow.row (r : ParameterRow) : List Cell :=
  [.plain r.name, .plain r.typeName, .plain (yesNo r.required), .escaped r.defaultValue, .escaped r.description]

def FieldRow.row (r : FieldRow) : List Cell :=
  [.plain r.name, .plain r.typeName, .plain (yesNo r.required), .escaped r.description]

/-- The line of a row. -/
def rowLine (row : List Cell) : String :=
  tableLine (row.map Cell.print)

section
variable {row : List Cell} (hne : row ≠ [])
include hne

theorem columnBars_rowLine : columnBars (rowLine row) = row.length + 1 + (row.map Cell.strayBars).sum := by
  rw [rowLine, spaced_columnBars.tableLine (mt List.map_eq_nil_iff.1 hne), List.map_map, List.length_map,
    show columnBars ∘ Cell.print = Cell.strayBars from funext Cell.columnBars_print, show columnBars "|" = 1 by decide,
    show columnBars "|\n" = 1 by decide]
  ring

theorem lineBreaks_rowLine : lineBreaks (rowLine row) = 1 + (row.map Cell.strayBreaks).sum := by
  rw [rowLine, spaced_lineBreaks.tableLine (mt List.map_eq_nil_iff.1 hne), List.map_map, List.length_map,
    show lineBreaks ∘ Cell.print = Cell.strayBreaks from funext Cell.lineBreaks_print, show lineBreaks "|" = 0 by decide,
    show lineBreaks "|\n" = 1 by decide]
  ring

end

/-! ## Tables -/

/-- The titles of the columns of a table of fields. -/
def fieldTitles : List String :=
  ["Field", "Type", "Required", "Description"]

/-- A table of a description, with what stands above its line of titles. -/
structure Table where
  heading : String
  titles : List String
  /-- The line below the titles. -/
  rule : String
  rows : List (List Cell)
  deriving DecidableEq, Repr

namespace Table

def print (t : Table) : String :=
  t.heading ++ tableLine t.titles ++ t.rule ++ String.join (t.rows.map rowLine) ++ "\n"

/-- A table has the titles of parameters or those of fields, and each row has a cell for each of them. -/
structure Regular (t : Table) : Prop where
  titles : t.titles = columnTitles ∨ t.titles = fieldTitles
  cells : ∀ row ∈ t.rows, row.length = t.titles.length

/-- A row keeps the shape of its table: it is one line, and it has as many bars that count as the titles have. -/
structure Keeps (t : Table) (row : List Cell) : Prop where
  line : ∃ own, rowLine row = own ++ "\n" ∧ ∀ ch ∈ own.toList, ch ≠ '\n' ∧ ch ≠ '\r'
  bars : columnBars (rowLine row) = columnBars (tableLine t.titles)

end Table

/-- The table of some parameters, if there are any. -/
def parameterTables (title : String) (rows : List ParameterRow) : List Table :=
  if rows.isEmpty then []
  else
    [⟨"#### " ++ title ++ "\n\n", columnTitles, "|------|------|----------|---------|-------------|\n",
      rows.map ParameterRow.row⟩]

/-- The table of the fields of a model. -/
def fieldTable (models : Models) (title : String) (m : Model) : Table where
  heading :=
    "#### " ++ title ++ " : " ++ m.name ++ "\n" ++
    (if m.description.isEmpty then "" else "\n" ++ escapeCell m.description ++ "\n") ++ "\n"
  titles := fieldTitles
  rule := "|-------|------|----------|-------------|\n"
  rows := m.fields.map fun f => (fieldRow models f).row

/-- The models that the description of a definition shows for its body. -/
def bodyModels (models : Models) (d : Definition) : List Model :=
  (d.body?.map fun p => reachable models p.classPath).getD []

/-- The models that it shows for what is returned. -/
def returnedModels (models : Models) (d : Definition) : List Model :=
  (d.returnClass.map (reachable models)).getD []

/-- The tables of the description of a definition. -/
def tables (c : Conventions) (models : Models) (d : Definition) : List Table :=
  parameterTables "Path Parameters" (pathTable d) ++ parameterTables "Query Parameters" (queryTable c d) ++
    (bodyModels models d).map (fieldTable models "Request") ++
    (returnedModels models d).map (fieldTable models "Response")

variable {c : Conventions} {models : Models} {d : Definition} {t : Table} {row : List Cell}

theorem table_eq_join (title : String) (rows : List ParameterRow) :
    table title rows = String.join ((parameterTables title rows).map Table.print) := by
  unfold table parameterTables
  split
  · rfl
  · simp [Table.print, String.join, Function.comp_def, rowLine, ParameterRow.row, ParameterRow.cells, Cell.print]

theorem modelTable_eq_print (title : String) : modelTable models title = Table.print ∘ fieldTable models title := by
  funext m
  simp only [modelTable, Function.comp_apply, Table.print, fieldTable, List.map_map, fieldTitles]
  rfl

theorem describe_eq_join (c : Conventions) (models : Models) (d : Definition) :
    describe c models d = opening d ++ String.join ((tables c models d).map Table.print) := by
  have hmodels : modelsOf models d =
      String.join ((bodyModels models d).map (modelTable models "Request")) ++
        String.join ((returnedModels models d).map (modelTable models "Response")) := by
    unfold modelsOf bodyModels returnedModels
    cases d.body? <;> cases d.returnClass <;> rfl
  simp only [describe_eq, hmodels, modelTable_eq_print, table_eq_join, tables, List.map_append, List.map_map,
    String.join_append, String.append_assoc]

theorem regular_of_mem (ht : t ∈ tables c models d) : t.Regular := by
  have hparameters : ∀ {title rows}, t ∈ parameterTables title rows → t.Regular := by
    intro title rows ht
    unfold parameterTables at ht
    split at ht
    · cases ht
    · obtain rfl := List.mem_singleton.1 ht
      exact ⟨.inl rfl, List.forall_mem_map.2 fun _ _ => rfl⟩
  have hfields : ∀ {title ms}, t ∈ List.map (fieldTable models title) ms → t.Regular := by
    intro title ms ht
    obtain ⟨m, -, rfl⟩ := List.mem_map.1 ht
    exact ⟨.inr rfl, List.forall_mem_map.2 fun _ _ => rfl⟩
  simp only [tables, List.mem_append] at ht
  rcases ht with ((ht | ht) | ht) | ht
  · exact hparameters ht
  · exact hparameters ht
  · exact hfields ht
  · exact hfields ht

/-- The rows of the tables are those of the parameters and those of the fields. -/
theorem forall_rows_iff {P : List Cell → Prop} : (∀ t ∈ tables c models d, ∀ row ∈ t.rows, P row) ↔
    ((∀ r ∈ pathTable d, P r.row) ∧ ∀ r ∈ queryTable c d, P r.row) ∧
      ∀ m ∈ bodyModels models d ++ returnedModels models d, ∀ f ∈ m.fields, P (fieldRow models f).row := by
  have hparameters : ∀ title rows,
      (∀ t ∈ parameterTables title rows, ∀ row ∈ t.rows, P row) ↔ ∀ r ∈ rows, P (ParameterRow.row r) := by
    intro title rows
    unfold parameterTables
    split
    next h => simp [List.isEmpty_iff.1 h]
    next => simp
  simp only [tables, List.forall_mem_append, hparameters, List.forall_mem_map, fieldTable, and_assoc]

/-! ## Shape -/

/-- Whether the texts of a definition and of the models that its description shows leave all rows their shape: names and
types, which are not escaped, and defaults, descriptions and constants, which are. -/
structure TextsFit (c : Conventions) (models : Models) (d : Definition) : Prop where
  path : ∀ p ∈ d.parametersIn .path,
    (Cell.plain p.name).Fits ∧ (Cell.plain (parameterType p)).Fits ∧ (Cell.escaped p.description).Fits
  query : ∀ p ∈ d.parametersIn .query, p.classPath ≠ c.xpageNation →
    (Cell.plain p.name).Fits ∧ (Cell.plain (parameterType p)).Fits ∧
      (Cell.escaped (p.defaultValue.getD "")).Fits ∧ (Cell.escaped p.description).Fits
  fields : ∀ m ∈ bodyModels models d ++ returnedModels models d, ∀ f ∈ m.fields,
    (Cell.plain f.name).Fits ∧ (Cell.plain (fieldType f)).Fits ∧ (Cell.escaped f.description).Fits ∧
      ∀ constant ∈ constantsOf models f, (Cell.escaped constant).Fits

theorem Table.Regular.columnBars (h : t.Regular) : columnBars (tableLine t.titles) = t.titles.length + 1 := by
  rcases h.titles with ht | ht <;> rw [ht] <;> decide

theorem isLine_iff :
    (∃ own, rowLine row = own ++ "\n" ∧ ∀ ch ∈ own.toList, ch ≠ '\n' ∧ ch ≠ '\r') ↔ lineBreaks (rowLine row) = 1 := by
  have hcount : ∀ own, lineBreaks (own ++ "\n") = lineBreaks own + 1 := by
    intro own
    simp [lineBreaks]
  have hzero : ∀ own, lineBreaks own = 0 ↔ ∀ ch ∈ own.toList, ch ≠ '\n' ∧ ch ≠ '\r' := by
    intro own
    simp [lineBreaks, List.countP_eq_zero]
  obtain ⟨own, hown⟩ : ∃ own, rowLine row = own ++ "\n" :=
    ⟨"| " ++ Text.join " | " (row.map Cell.print) ++ " |", by
      simp only [rowLine, tableLine, show " |\n" = " |" ++ "\n" from rfl, String.append_assoc]⟩
  constructor
  · rintro ⟨own, hown, hclean⟩
    rw [hown, hcount, (hzero own).2 hclean]
  · intro h
    rw [hown, hcount] at h
    exact ⟨own, hown, (hzero own).1 (by omega)⟩

section
variable (ht : t ∈ tables c models d) (hrow : row ∈ t.rows)
include ht hrow

theorem ne_nil_of_mem_rows : row ≠ [] := by
  have hregular := regular_of_mem ht
  refine List.ne_nil_of_length_pos ?_
  rw [hregular.cells row hrow]
  rcases hregular.titles with h | h <;> rw [h] <;> decide

/-- Beside the bars of the titles a row has just those of its cells. -/
theorem columnBars_of_mem_rows :
    columnBars (rowLine row) = columnBars (tableLine t.titles) + (row.map Cell.strayBars).sum := by
  have hregular := regular_of_mem ht
  rw [columnBars_rowLine (ne_nil_of_mem_rows ht hrow), hregular.cells row hrow, hregular.columnBars]

theorem Table.keeps_iff : t.Keeps row ↔ ∀ cell ∈ row, cell.Fits := by
  have hbars := columnBars_of_mem_rows ht hrow
  have hbreaks := lineBreaks_rowLine (ne_nil_of_mem_rows ht hrow)
  have hsums : (∀ cell ∈ row, cell.Fits) ↔
      (row.map Cell.strayBars).sum = 0 ∧ (row.map Cell.strayBreaks).sum = 0 := by
    simp only [List.sum_eq_zero_iff, List.forall_mem_map, Cell.Fits, forall_and]
  rw [hsums]
  constructor
  · rintro ⟨hline, hsame⟩
    have := isLine_iff.1 hline
    omega
  · rintro ⟨hnoBars, hnoBreaks⟩
    exact ⟨isLine_iff.2 (by omega), by omega⟩

end

theorem ParameterRow.fits_iff {r : ParameterRow} : (∀ cell ∈ r.row, cell.Fits) ↔
    (Cell.plain r.name).Fits ∧ (Cell.plain r.typeName).Fits ∧ (Cell.escaped r.defaultValue).Fits ∧
      (Cell.escaped r.description).Fits := by
  simp [ParameterRow.row, Cell.fits_yesNo]

theorem fits_pathRow {p : Parameter} : (∀ cell ∈ (pathRow p).row, cell.Fits) ↔
    (Cell.plain p.name).Fits ∧ (Cell.plain (parameterType p)).Fits ∧ (Cell.escaped p.description).Fits := by
  have hempty : (Cell.escaped "").Fits := by decide
  simp only [ParameterRow.fits_iff, pathRow, hempty, true_and]

theorem fits_fieldDescription {f : Field} : (Cell.escaped (fieldDescription models f)).Fits ↔
    (Cell.escaped f.description).Fits ∧ ∀ constant ∈ constantsOf models f, (Cell.escaped constant).Fits := by
  have hbars := spaced_escapedBars.fieldDescription (by decide) (by decide) (by decide) models f
  have hreturns := spaced_loneReturns.fieldDescription (by decide) (by decide) (by decide) models f
  simp only [Cell.Fits, Cell.strayBars, Cell.strayBreaks, hbars, hreturns, Nat.add_eq_zero_iff, List.sum_eq_zero_iff,
    List.forall_mem_map, forall_and]
  exact and_and_and_comm

theorem fits_fieldRow {f : Field} : (∀ cell ∈ (fieldRow models f).row, cell.Fits) ↔
    (Cell.plain f.name).Fits ∧ (Cell.plain (fieldType f)).Fits ∧ (Cell.escaped f.description).Fits ∧
      ∀ constant ∈ constantsOf models f, (Cell.escaped constant).Fits := by
  rw [← fits_fieldDescription]
  simp [FieldRow.row, fieldRow, Cell.fits_yesNo]

theorem fits_queryRows {p : Parameter} : (∀ r ∈ queryRows c p, ∀ cell ∈ r.row, cell.Fits) ↔
    (p.classPath ≠ c.xpageNation →
      (Cell.plain p.name).Fits ∧ (Cell.plain (parameterType p)).Fits ∧
        (Cell.escaped (p.defaultValue.getD "")).Fits ∧ (Cell.escaped p.description).Fits) := by
  unfold queryRows
  split
  next hp => exact iff_of_true (by decide) (absurd hp)
  next hp => simp only [List.mem_singleton, forall_eq, ParameterRow.fits_iff, ne_eq, hp, not_false_eq_true, true_imp_iff]

theorem textsFit_iff : TextsFit c models d ↔
    ∀ t ∈ tables c models d, ∀ row ∈ t.rows, ∀ cell ∈ row, cell.Fits := by
  rw [forall_rows_iff, pathTable, queryTable, List.forall_mem_map, List.forall_mem_flatMap]
  simp only [fits_pathRow, fits_queryRows, fits_fieldRow]
  constructor
  · intro h
    exact ⟨⟨h.path, h.query⟩, h.fields⟩
  · rintro ⟨⟨hpath, hquery⟩, hfields⟩
    exact ⟨hpath, hquery, hfields⟩

/-- A description is its opening and its tables. Those of parameters have six bars in their line of titles and those of
fields have five; a row has these and the ones that its cells leave, and it is one line apart from the line ends that they
leave. It keeps the shape of its table exactly if there are none, and all rows do exactly if the texts fit. -/
theorem rows_keep_shape (c : Conventions) (models : Models) (d : Definition) :
    describe c models d = opening d ++ String.join ((tables c models d).map Table.print) ∧
      (∀ t ∈ tables c models d,
        (t.titles = columnTitles ∧ columnBars (tableLine t.titles) = 6 ∨
          t.titles = fieldTitles ∧ columnBars (tableLine t.titles) = 5) ∧
        ∀ row ∈ t.rows,
          columnBars (rowLine row) = columnBars (tableLine t.titles) + (row.map Cell.strayBars).sum ∧
          lineBreaks (rowLine row) = 1 + (row.map Cell.strayBreaks).sum ∧
          (t.Keeps row ↔ ∀ cell ∈ row, cell.Fits)) ∧
      ((∀ t ∈ tables c models d, ∀ row ∈ t.rows, t.Keeps row) ↔ TextsFit c models d) := by
  refine ⟨describe_eq_join c models d, fun t ht => ⟨?_, fun row hrow => ⟨columnBars_of_mem_rows ht hrow,
    lineBreaks_rowLine (ne_nil_of_mem_rows ht hrow), Table.keeps_iff ht hrow⟩⟩, ?_⟩
  · rcases (regular_of_mem ht).titles with h | h
    · exact .inl ⟨h, by rw [h]; decide⟩
    · exact .inr ⟨h, by rw [h]; decide⟩
  · rw [textsFit_iff]
    exact forall₂_congr fun t ht => forall₂_congr fun row hrow => Table.keeps_iff ht hrow

/-- A definition with one parameter in its query. -/
def asking (name description : String) : Definition :=
  { OpenApi.returning "GET" "/rows" "a.Row" .array with
    parameters := [⟨name, "String", "java.lang.String", description, false, none, .query, false, false⟩] }

example : TextsFit .default .empty (asking "rows" "all | none\r\nor a \\ number") := by
  constructor <;> decide

/-- The table of a definition with one parameter in its query does not keep its shape with a cell of its row that does
not fit. -/
theorem not_keeps_asking {name description : String}
    (h : ¬ ((Cell.plain name).Fits ∧ (Cell.escaped description).Fits)) :
    ¬ ∀ t ∈ tables .default .empty (asking name description), ∀ row ∈ t.rows, t.Keeps row := by
  intro hkeeps
  have hfit : TextsFit .default .empty (asking name description) :=
    textsFit_iff.2 fun t ht row hrow => (Table.keeps_iff ht hrow).1 (hkeeps t ht row hrow)
  obtain ⟨hname, -, -, hdescription⟩ := hfit.query _ (List.mem_singleton_self _) (by simp [Conventions.default])
  exact h ⟨hname, hdescription⟩

/-- A bar in a name, a bar behind a backslash in a description, and a carriage return without a line feed. -/
theorem asking_breaks_rows :
    (¬ ∀ t ∈ tables .default .empty (asking "a|b" ""), ∀ row ∈ t.rows, t.Keeps row) ∧
      (¬ ∀ t ∈ tables .default .empty (asking "rows" "x \\| y"), ∀ row ∈ t.rows, t.Keeps row) ∧
      ¬ ∀ t ∈ tables .default .empty (asking "rows" "u\rv"), ∀ row ∈ t.rows, t.Keeps row :=
  ⟨not_keeps_asking (by decide), not_keeps_asking (by decide), not_keeps_asking (by decide)⟩

end ApiDocs.Description
