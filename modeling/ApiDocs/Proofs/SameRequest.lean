import ApiDocs.Proofs.SentNames
/-!
# One request in three forms

A definition is shown as an operation, as a request and as tables in the description of that request. Each of them goes
through the parameters on its own, but they tell the same (`TellSame`): the names of the path, of the query and of the
headers come in one order, what the operation requires is what the tables mark, and a paging request is replaced where
it stands (`Definition.told_alike`). What the three share is said parameter by parameter.
-/
namespace ApiDocs

/-! ## The tables of a description -/

namespace Description

/-- The titles of the columns of a table of parameters. -/
def columnTitles : List String :=
  ["Name", "Type", "Required", "Default", "Description"]

/-- The cells of a row, one for each column. -/
def ParameterRow.cells (r : ParameterRow) : List String :=
  [r.name, r.typeName, yesNo r.required, escapeCell r.defaultValue, escapeCell r.description]

/-- A column of a table. -/
def column (title : String) (rows : List ParameterRow) : List String :=
  rows.filterMap fun r => (columnTitles.zip r.cells).lookup title

/-- A table as it is printed: a line of titles, and below it one of cells for each row. -/
def table (title : String) (rows : List ParameterRow) : String :=
  if rows.isEmpty then ""
  else
    "#### " ++ title ++ "\n\n" ++ tableLine columnTitles ++ "|------|------|----------|---------|-------------|\n" ++
      String.join (rows.map fun r => tableLine r.cells) ++ "\n"

theorem parameterTable_eq (title : String) (rows : List ParameterRow) : parameterTable title rows = table title rows :=
  rfl

theorem column_name (rows : List ParameterRow) : column "Name" rows = rows.map (·.name) := by
  simp [column, columnTitles, ParameterRow.cells]

theorem column_required (rows : List ParameterRow) :
    column "Required" rows = (rows.map (·.required)).map yesNo := by
  simp [column, columnTitles, ParameterRow.cells, List.lookup_cons]

/-- The rows of the table of the path. -/
def pathTable (d : Definition) : List ParameterRow :=
  (d.parametersIn .path).map pathRow

/-- The rows of the table of the query. -/
def queryTable (c : Conventions) (d : Definition) : List ParameterRow :=
  (d.parametersIn .query).flatMap (queryRows c)

/-- What stands before the tables of parameters. -/
def opening (d : Definition) : String :=
  if (Text.trim d.description).isEmpty then "" else Text.trim d.description ++ "\n\n"

/-- What stands behind them. -/
def modelsOf (models : Models) (d : Definition) : String :=
  (match d.body? with
    | some p => modelTables models "Request" p.classPath
    | none => "") ++
  (match d.returnClass with
    | some path => modelTables models "Response" path
    | none => "")

variable {c : Conventions} {d : Definition}

theorem describe_eq (c : Conventions) (models : Models) (d : Definition) : describe c models d =
    opening d ++ table "Path Parameters" (pathTable d) ++ table "Query Parameters" (queryTable c d) ++
      modelsOf models d := by
  rw [modelsOf, ← String.append_assoc, ← parameterTable_eq, ← parameterTable_eq]
  rfl

theorem names_pathTable : (pathTable d).map (·.name) = d.sentIn c .path := by
  rw [Definition.sentIn_path]
  exact List.map_map

theorem names_queryTable : (queryTable c d).map (·.name) = d.sentIn c .query :=
  Definition.map_flatMap_query ParameterRow.name (queryRows c) pagingRows
    (fun p => ⟨p.name, parameterType p, !p.isOptional, p.defaultValue.getD "", p.description⟩) (fun _ => rfl) rfl
    fun _ => rfl

end Description

/-! ## What is required -/

namespace OpenApi

/-- Which of the parameters that an operation lists in a place are required. -/
def Operation.requiredIn (location : String) (o : Operation) : List Bool :=
  (o.listedIn location).map (·.required)

variable {ctx : Context} {d : Definition}

/-- All that a path holds is required. -/
theorem requiredIn_path : (operationOf ctx d).requiredIn "path" = (Description.pathTable d).map (·.required) := by
  rw [Operation.requiredIn, listedIn_operationOf, Description.pathTable]
  simp [pathParameter, Description.pathRow, Function.comp_def]

/-- A query parameter and its rows require the same, and so do those that stand for a paging request. -/
theorem required_queryParameters (p : ApiDocs.Parameter) : (queryParameters ctx p).map (·.required) =
    (Description.queryRows ctx.conventions p).map (·.required) := by
  unfold queryParameters Description.queryRows isPagingRequest
  by_cases hp : p.classPath = ctx.conventions.xpageNation
  · rw [if_pos (beq_iff_eq.2 hp), if_pos hp]
    rfl
  · rw [if_neg (mt beq_iff_eq.1 hp), if_neg hp]
    rfl

theorem requiredIn_query :
    (operationOf ctx d).requiredIn "query" = (Description.queryTable ctx.conventions d).map (·.required) := by
  rw [Operation.requiredIn, listedIn_operationOf, Description.queryTable, List.map_flatMap]
  simp only [String.reduceEq, if_true, if_false, List.nil_append, List.append_nil, List.map_flatMap]
  exact List.flatMap_congr fun p _ => required_queryParameters p

end OpenApi

/-! ## The three forms -/

/-- An operation, a request and the two tables of a description tell of the same parameters. -/
structure TellSame (op : OpenApi.Operation) (r : Collection.Request) (paths queries : List Description.ParameterRow) :
    Prop where
  path : op.namesIn "path" = r.url.pathEntries.map (·.key) ∧
    op.namesIn "path" = Description.column "Name" paths
  query : op.namesIn "query" = r.url.query.map (·.key) ∧
    op.namesIn "query" = Description.column "Name" queries
  header : op.namesIn "header" = r.headers.map (·.key)
  requiredPath : (op.requiredIn "path").map Description.yesNo = Description.column "Required" paths
  requiredQuery : (op.requiredIn "query").map Description.yesNo = Description.column "Required" queries

namespace Definition

variable {s : Service} {c : Conventions} {models : Models} {d : Definition}

theorem tellSame_itemOf {old : Option Collection.Item} {r : Collection.Request}
    (hr : (Collection.itemOf ⟨s, c, models⟩ d old).request = some r) :
    TellSame (OpenApi.operationOf ⟨s, c, models⟩ d) r (Description.pathTable d) (Description.queryTable c d) := by
  obtain ⟨hheaders, hquery, hpath⟩ := Collection.keys_of_itemOf ⟨s, c, models⟩ hr
  constructor
  · rw [OpenApi.namesIn_operationOf, hpath, Description.column_name, Description.names_pathTable (c := c)]
    simp
  · rw [OpenApi.namesIn_operationOf, hquery, Description.column_name, Description.names_queryTable]
    simp
  · rw [OpenApi.namesIn_operationOf, hheaders, Collection.requestOf, List.map_map]
    simp [Function.comp_def, Collection.headerEntry]
  · rw [OpenApi.requiredIn_path, Description.column_required]
  · rw [OpenApi.requiredIn_query, Description.column_required]

/-- Where a paging request stands in the query, its two names stand. -/
theorem sentIn_query_of_paging {before after : List Parameter} {p : Parameter}
    (hsplit : d.parametersIn .query = before ++ p :: after) (hp : p.classPath = c.xpageNation) :
    d.sentIn c .query =
      before.flatMap (Parameter.sentNames c) ++ ["size", "page"] ++ after.flatMap (Parameter.sentNames c) := by
  have hmem : p ∈ d.parametersIn .query := by simp [hsplit]
  have hsent : p.sentNames c = ["size", "page"] := if_pos ⟨(OpenApi.mem_parametersIn.1 hmem).2, hp⟩
  rw [sentIn, hsplit, List.flatMap_append, List.flatMap_cons, hsent, List.append_assoc]

theorem description_itemOf {old : Option Collection.Item} {r : Collection.Request}
    (hr : (Collection.itemOf ⟨s, c, models⟩ d old).request = some r) :
    r.description = Collection.shown (Description.describe c models d) := by
  have hfresh : (Collection.requestOf ⟨s, c, models⟩ d).description =
      Collection.shown (Description.describe c models d) := by
    rw [Collection.requestOf]
  rcases Collection.generated_or_kept _ hr with rfl | ⟨o, hkept⟩
  · exact hfresh
  · exact hkept.description.trans hfresh

/-- A definition of a document has an operation in it and a request in the collection, over every earlier one. These and
the tables in the description of the request tell the same, which is the names that the parameters and headers are sent
under. -/
theorem told_alike (s : Service) (c : Conventions) (models : Models) (ds : List Definition)
    (previous : Option Collection) (doc : OpenApi.Document) (h : OpenApi.render ⟨s, c, models⟩ ds = .ok doc) :
    ∀ d ∈ ds, ∃ op i r,
      doc.operation? (OpenApi.pathOf ⟨s, c, models⟩ d) d.method = some op ∧ op.id = d.id ∧
      i ∈ (Collection.render ⟨s, c, models⟩ ds previous).requests ∧ i.id = some d.id ∧ i.request = some r ∧
      r.description = Collection.shown
        (Description.opening d ++
          Description.table "Path Parameters" (Description.pathTable d) ++
          Description.table "Query Parameters" (Description.queryTable c d) ++
          Description.modelsOf models d) ∧
      TellSame op r (Description.pathTable d) (Description.queryTable c d) ∧
      op.namesIn "path" = (d.parametersIn .path).map (·.name) ∧
      op.namesIn "query" = d.sentIn c .query ∧
      op.namesIn "header" = (Header.merge d.headers s.headers).map (·.name) ∧
      ∀ before p after, d.parametersIn .query = before ++ p :: after → p.classPath = c.xpageNation →
        op.namesIn "query" =
          before.flatMap (Parameter.sentNames c) ++ ["size", "page"] ++ after.flatMap (Parameter.sentNames c) := by
  intro d hd
  obtain ⟨m, hm, hop⟩ := OpenApi.operationAt_render h hd
  have hitem : Collection.itemOf ⟨s, c, models⟩ d (Collection.saved? previous d.id) ∈
      (Collection.render ⟨s, c, models⟩ ds previous).requests :=
    (Collection.mem_requests_render _).2 ⟨d, hd, rfl⟩
  have hquery : (OpenApi.operationOf ⟨s, c, models⟩ d).namesIn "query" = d.sentIn c .query := by
    simp [OpenApi.namesIn_operationOf]
  refine ⟨OpenApi.operationOf ⟨s, c, models⟩ d, _, _, ?_, rfl, hitem, rfl, rfl, ?_, tellSame_itemOf rfl, ?_, hquery, ?_,
    fun before p after hsplit hp => hquery.trans (sentIn_query_of_paging hsplit hp)⟩
  · rw [OpenApi.Document.operation?_eq, hm]
    exact hop
  · rw [description_itemOf (s := s) rfl, Description.describe_eq]
  · simp [OpenApi.namesIn_operationOf, sentIn_path]
  · simp [OpenApi.namesIn_operationOf]

/-- A definition with a paging request between two numbers in its query. -/
def browsing : Definition :=
  { OpenApi.returning "GET" "/users/\x7bid\x7d/orders" "a.Order" .array with
    parameters :=
      [⟨"least", "Integer", "java.lang.Integer", "", false, none, .query, false, false⟩,
       ⟨"nation", "Object", Conventions.default.xpageNation, "", false, none, .query, false, false⟩,
       ⟨"id", "Long", "java.lang.Long", "", false, none, .path, false, false⟩,
       ⟨"most", "Integer", "java.lang.Integer", "", true, some "9", .query, false, false⟩]
    headers := [Header.ofText "X-Trace" ""] }

theorem browsing_told_alike : ∃ (doc : OpenApi.Document) (op : OpenApi.Operation) (r : Collection.Request),
    OpenApi.render OpenApi.shop [browsing] = .ok doc ∧
    doc.operation? "/v1.0/users/\x7bid\x7d/orders" "GET" = some op ∧
    op.namesIn "query" = ["least", "size", "page", "most"] ∧
    r.url.query.map (·.key) = ["least", "size", "page", "most"] ∧
    (op.requiredIn "query").map Description.yesNo = ["Y", "N", "N", "N"] ∧
    op.namesIn "header" = r.headers.map (·.key) := by
  have hok : (OpenApi.render OpenApi.shop [browsing]).toOption.isSome = true := by decide
  obtain ⟨doc, hdoc⟩ := OpenApi.exists_document hok
  obtain ⟨op, i, r, hop, -, -, -, -, -, hsame, -, -, -, hpaging⟩ :=
    told_alike _ _ _ _ none doc hdoc browsing (List.mem_singleton_self _)
  have hnames : op.namesIn "query" = ["least", "size", "page", "most"] :=
    hpaging [_] _ [_] rfl rfl
  refine ⟨doc, op, r, hdoc, hop, hnames, hsame.query.1 ▸ hnames, ?_, hsame.header⟩
  rw [hsame.requiredQuery]
  decide

end Definition

end ApiDocs
