import ApiDocs.Proofs.Endpoint.Declared
/-!
# Errors and responses

The errors of a definition are the groups of the exceptions that its tags and its declared exceptions
mention, each where it is first mentioned. Three writers share the table of responses: a status that
an error has is called by the group of the last such error, any other code by the last tag for it, and
without a tag for any code there is a success. `Summary.link` is the part of a summary that errors go
through, apart from all else that tags say.
-/
namespace ApiDocs.Endpoint

/-! ## What tags mention -/

/-- The exception that a tag names. -/
def errorName? (t : Facts.Tag) : Option String :=
  if t.tag = "error" ∨ t.tag = "throws" then some t.nameText else none

/-- The code that a tag has a text for. -/
def responseCode? (t : Facts.Tag) : Option String :=
  if t.tag = "response" ∧ t.nameText.isEmpty = false then some t.nameText else none

/-- The names of the exceptions that an endpoint mentions: those in its tags, then those that it declares
to throw. -/
def mentions (e : Facts.Endpoint) : List String :=
  e.comment.tags.filterMap errorName? ++ e.throws.map TypeName.simple

/-- The text of the last tag for a code. -/
def taggedText? (e : Facts.Endpoint) (code : String) : Option String :=
  (e.comment.tags.findRev? fun t => responseCode? t == some code).map (·.valueText)

/-- Whether some tag has a text for a code. -/
def isTagged (e : Facts.Endpoint) : Bool :=
  e.comment.tags.any fun t => (responseCode? t).isSome

/-- The success that is documented where no tag has a text for a code. -/
def defaultText? (e : Facts.Endpoint) (code : String) : Option String :=
  if isTagged e = false ∧ code = "200" then some "Success" else none

/-! ## Linking errors -/

/-- Whether two groups belong to one exception. -/
def sameException (g h : ErrorGroup) : Bool :=
  g.exception == h.exception

theorem sameException_comm (g h : ErrorGroup) : sameException g h = sameException h g :=
  Bool.beq_comm

/-- The groups with that of one more exception. -/
def link (catalog : ErrorCatalog) (errors : List ErrorGroup) (exception : String) : List ErrorGroup :=
  match catalog.get? exception with
  | none => errors
  | some group => if errors.any (sameException · group) then errors else errors ++ [group]

theorem errors_linkError (catalog : ErrorCatalog) (s : Summary) (exception : String) :
    (s.linkError catalog exception).errors = link catalog s.errors exception := by
  unfold Summary.linkError link
  cases catalog.get? exception with
  | none => rfl
  | some group => exact apply_ite Summary.errors _ _ _

theorem responses_linkError (catalog : ErrorCatalog) (s : Summary) (exception : String) :
    (s.linkError catalog exception).responses = s.responses ∧
      (s.linkError catalog exception).hasResponseTag = s.hasResponseTag := by
  unfold Summary.linkError
  split
  · exact ⟨rfl, rfl⟩
  · split <;> exact ⟨rfl, rfl⟩

/-- Linking exceptions one after the other adds the groups that are new, each at its first mention. -/
theorem foldl_link (catalog : ErrorCatalog) (names : List String) (errors : List ErrorGroup) :
    names.foldl (link catalog) errors = errors ++
      ((names.filterMap catalog.get?).filter fun g => !errors.any (sameException · g)).eraseDupsBy sameException := by
  induction names generalizing errors with
  | nil => simp
  | cons name rest ih =>
    rw [List.foldl_cons, ih]
    cases hg : catalog.get? name with
    | none =>
      have hlink : link catalog errors name = errors := by simp [link, hg]
      rw [hlink, List.filterMap_cons_none hg]
    | some group =>
      rw [List.filterMap_cons_some hg]
      by_cases hany : errors.any (sameException · group) = true
      · have hlink : link catalog errors name = errors := by simp [link, hg, hany]
        rw [hlink, List.filter_cons_of_neg (by simp [hany])]
      · have hlink : link catalog errors name = errors ++ [group] := by simp [link, hg, hany]
        -- The groups of the exception that come later are taken for repetitions of this one.
        have hlater : ∀ g, (!(errors ++ [group]).any (sameException · g)) =
            (decide (sameException g group = false) && !errors.any (sameException · g)) := by
          intro g
          rw [List.any_append, sameException_comm g group]
          cases hsame : sameException group g <;> simp [hsame]
        rw [hlink, List.filter_cons_of_pos (by simp [hany]), List.eraseDupsBy_cons, List.filter_filter,
          List.append_assoc, List.singleton_append]
        simp only [hlater]

/-! ## Taking in tags -/

variable {source : Facts.Source} {catalog : ErrorCatalog} {i : Inputs} {s : Summary} {t : Facts.Tag}

/-- A tag can link an exception, or write the text of a code, or leave both alone. -/
theorem applyTag_summary (source : Facts.Source) (catalog : ErrorCatalog) (i : Inputs) (s : Summary) (t : Facts.Tag) :
    (applyTag source catalog (i, s) t).2.errors = ((errorName? t).map (link catalog s.errors)).getD s.errors ∧
    (applyTag source catalog (i, s) t).2.responses =
      ((responseCode? t).map fun code => s.responses.put code t.valueText).getD s.responses ∧
    (applyTag source catalog (i, s) t).2.hasResponseTag = (s.hasResponseTag || (responseCode? t).isSome) := by
  simp only [applyTag]
  split
  case h_3 h =>
    have herror : errorName? t = none := by simp [errorName?, h]
    rw [herror, responseCode?, h]
    cases hname : t.nameText.isEmpty <;> simp
  case h_8 h | h_9 h =>
    have herror : errorName? t = some t.nameText := by simp [errorName?, h]
    have hresponse : responseCode? t = none := by simp [responseCode?, h]
    simp [herror, hresponse, errors_linkError, responses_linkError]
  case h_10 hresponse _ _ _ _ herror hthrows =>
    rw [errorName?, if_neg (not_or.2 ⟨herror, hthrows⟩), responseCode?, if_neg fun h => hresponse h.1]
    simp
  all_goals
    have herror : errorName? t = none := by simp [errorName?, *]
    have hresponse : responseCode? t = none := by simp [responseCode?, *]
    rw [herror, hresponse]
    repeat' split
    all_goals simp

/-- The errors and the texts of codes after some tags. -/
theorem foldl_applyTag (source : Facts.Source) (catalog : ErrorCatalog) (tags : List Facts.Tag) (state : Inputs × Summary) :
    (tags.foldl (applyTag source catalog) state).2.errors = (tags.filterMap errorName?).foldl (link catalog) state.2.errors ∧
    (∀ code, (tags.foldl (applyTag source catalog) state).2.responses.get? code =
      ((tags.findRev? fun t => responseCode? t == some code).map (·.valueText)).or (state.2.responses.get? code)) ∧
    (tags.foldl (applyTag source catalog) state).2.hasResponseTag =
      (state.2.hasResponseTag || tags.any fun t => (responseCode? t).isSome) := by
  refine ⟨?_, fun code => ?_, ?_⟩
  · induction tags generalizing state with
    | nil => rfl
    | cons t rest ih =>
      rw [List.foldl_cons, ih, (applyTag_summary source catalog state.1 state.2 t).1]
      cases h : errorName? t with
      | none => rw [List.filterMap_cons_none h]; rfl
      | some name => rw [List.filterMap_cons_some h]; rfl
  · refine Pairs.get?_foldl (fun state : Inputs × Summary => state.2.responses.get? code) (fun state t => ?_) tags state
    rw [(applyTag_summary source catalog state.1 state.2 t).2.1]
    cases responseCode? t with
    | none => simp
    | some code' => simp [Sorted.get?_put]
  · induction tags generalizing state with
    | nil => simp
    | cons t rest ih =>
      rw [List.foldl_cons, ih, (applyTag_summary source catalog state.1 state.2 t).2.2, List.any_cons, Bool.or_assoc]

/-- Declared exceptions are linked and change no text of a code. -/
theorem foldl_linkError (catalog : ErrorCatalog) (throws : List String) (s : Summary) :
    (throws.foldl (fun s x => s.linkError catalog (TypeName.simple x)) s).errors =
        (throws.map TypeName.simple).foldl (link catalog) s.errors ∧
      (throws.foldl (fun s x => s.linkError catalog (TypeName.simple x)) s).responses = s.responses ∧
      (throws.foldl (fun s x => s.linkError catalog (TypeName.simple x)) s).hasResponseTag = s.hasResponseTag := by
  induction throws generalizing s with
  | nil => exact ⟨rfl, rfl, rfl⟩
  | cons x rest ih =>
    obtain ⟨herrors, hresponses, hflag⟩ := ih (s.linkError catalog (TypeName.simple x))
    obtain ⟨hresponses', hflag'⟩ := responses_linkError catalog s (TypeName.simple x)
    rw [errors_linkError] at herrors
    exact ⟨herrors, hresponses.trans hresponses', hflag.trans hflag'⟩

variable {ctx : Context} {e : Facts.Endpoint} {d : Definition}

/-- What all tags and the declared exceptions of an endpoint amount to. -/
theorem summary_documented (ctx : Context) (e : Facts.Endpoint) (i : Inputs) :
    (documented ctx e i).2.errors = ((mentions e).filterMap ctx.catalog.get?).eraseDupsBy sameException ∧
    (∀ code, (documented ctx e i).2.responses.get? code = taggedText? e code) ∧
    (documented ctx e i).2.hasResponseTag = isTagged e := by
  obtain ⟨herrors, hresponses, hflag⟩ := foldl_applyTag ctx.source ctx.catalog e.comment.tags (i, Summary.empty)
  obtain ⟨herrors', hresponses', hflag'⟩ := foldl_linkError ctx.catalog e.throws
    (e.comment.tags.foldl (applyTag ctx.source ctx.catalog) (i, Summary.empty)).2
  refine ⟨?_, fun code => ?_, ?_⟩
  · calc (documented ctx e i).2.errors
      _ = (e.throws.map TypeName.simple).foldl (link ctx.catalog)
            ((e.comment.tags.filterMap errorName?).foldl (link ctx.catalog) []) := by
          rw [← show _ = List.foldl _ [] _ from herrors]
          exact herrors'
      _ = (mentions e).foldl (link ctx.catalog) [] := by rw [mentions, List.foldl_append]
      _ = ((mentions e).filterMap ctx.catalog.get?).eraseDupsBy sameException := by
          rw [foldl_link, List.filter_eq_self.2 (by simp), List.nil_append]
  · rw [show (documented ctx e i).2.responses = _ from hresponses', hresponses]
    exact Option.or_none
  · rw [show (documented ctx e i).2.hasResponseTag = _ from hflag', hflag]
    rfl

/-- What stands under a code: the writers of the table in the order of their precedence. -/
theorem get?_responseTable (s : Summary) (code : String) : (responseTable s).get? code =
    ((s.errors.findRev? fun g => toString g.status == code).map (·.group)).or
      (if s.hasResponseTag = false ∧ code = "200" then some "Success" else s.responses.get? code) := by
  have hlast : ∀ described : Sorted String,
      (s.errors.foldl (fun table g => table.put (toString g.status) g.group) described).get? code =
        ((s.errors.findRev? fun g => toString g.status == code).map (·.group)).or (described.get? code) :=
    Pairs.get?_foldl (fun table : Sorted String => table.get? code) (fun table g => by simp [Sorted.get?_put]) s.errors
  rw [responseTable, hlast]
  congr 1
  cases s.hasResponseTag with
  | true => simp
  | false => simp [Sorted.get?_put, eq_comm]

theorem taggedText?_eq_none_iff {code : String} :
    taggedText? e code = none ↔ ∀ t ∈ e.comment.tags, responseCode? t ≠ some code := by
  simp [taggedText?]

/-- Without a tag for any code, no code has a text of a tag. -/
theorem taggedText?_of_not_isTagged (h : isTagged e = false) (code : String) : taggedText? e code = none := by
  rw [isTagged, List.any_eq_false] at h
  exact taggedText?_eq_none_iff.2 fun t ht hcode => h t ht (by simp [hcode])

/-- Some code has the text of a tag, or the success is documented. -/
theorem exists_described (e : Facts.Endpoint) : ∃ code, (taggedText? e code).or (defaultText? e code) ≠ none := by
  cases htagged : isTagged e with
  | false => exact ⟨"200", by simp [defaultText?, htagged]⟩
  | true =>
    obtain ⟨t, ht, hsome⟩ := List.any_eq_true.1 htagged
    obtain ⟨code, hcode⟩ := Option.isSome_iff_exists.1 hsome
    exact ⟨code, fun h => taggedText?_eq_none_iff.1 (Option.or_eq_none_iff.1 h).1 t ht hcode⟩

/-- What was described before the errors came: the texts of tags, or else the success. -/
theorem described_documented (ctx : Context) (e : Facts.Endpoint) (i : Inputs) (code : String) :
    (if (documented ctx e i).2.hasResponseTag = false ∧ code = "200" then some "Success"
      else (documented ctx e i).2.responses.get? code) = (taggedText? e code).or (defaultText? e code) := by
  obtain ⟨-, htext, hflag⟩ := summary_documented ctx e i
  rw [htext, hflag, defaultText?]
  cases htagged : isTagged e with
  | true => simp
  | false => simp [taggedText?_of_not_isTagged htagged]

/-- What stands under a code of a definition. -/
theorem get?_responses_of_build (h : (build ctx e).definition = .ok d) (code : String) : d.responses.get? code =
    ((d.errors.findRev? fun g => toString g.status == code).map (·.group)).or
      ((taggedText? e code).or (defaultText? e code)) := by
  obtain ⟨i, -, hmade⟩ := made_of_build h
  rw [hmade.responses, hmade.errors, get?_responseTable, described_documented]

/-- Some code is always documented. -/
theorem entries_responses_ne_nil (h : (build ctx e).definition = .ok d) : d.responses.entries ≠ [] := by
  intro hempty
  obtain ⟨code, hcode⟩ := exists_described e
  have hnone : d.responses.get? code = none := by rw [Sorted.get?, hempty, Pairs.get?]
  rw [get?_responses_of_build h] at hnone
  exact hcode (Option.or_eq_none_iff.1 hnone).2

/-- The errors of a definition are the groups of the exceptions that the endpoint mentions, each at its
first mention. Under a code stands the name of the group of the last error with that status, else the
text of the last tag for it, else the success that is documented where no tag has a text for a code;
nothing stands under any other code, and there is always one. -/
theorem build_errors (ctx : Context) (e : Facts.Endpoint) (d : Definition) (h : (build ctx e).definition = .ok d) :
    d.errors = ((mentions e).filterMap ctx.catalog.get?).eraseDupsBy sameException ∧
    (∀ code, d.responses.get? code =
      ((d.errors.findRev? fun g => toString g.status == code).map (·.group)).or
        ((taggedText? e code).or (defaultText? e code))) ∧
    d.responses.isEmpty = false := by
  obtain ⟨i, -, hmade⟩ := made_of_build h
  refine ⟨hmade.errors.trans (summary_documented ctx e i).1, get?_responses_of_build h, ?_⟩
  rw [Sorted.isEmpty, List.isEmpty_eq_false_iff]
  exact entries_responses_ne_nil h

/-- A catalog with two errors of one status. -/
def orderErrors : Context where
  source := .ofDocument ⟨[], Keyed.empty, [], none⟩
  service := Service.ofId "svc"
  conventions := .default
  catalog := ⟨Sorted.ofList
    [("OrderNotFoundException", ⟨"Order Not Found", "OrderNotFoundException", 404, []⟩),
     ("RowNotFoundException", ⟨"Row Not Found", "RowNotFoundException", 404, []⟩)]⟩

/-- An endpoint whose tags mention one of the errors, and which declares to throw both. -/
def findsOrder : Facts.Endpoint where
  handler := "h.Orders"
  handlerPath := "/orders"
  groupId := none
  methodName := "find"
  mappingName := none
  httpMethod := "GET"
  path := "/{id}"
  parameters := []
  returnType := .named "void"
  comment := ⟨"", [⟨"error", some "RowNotFoundException", none⟩, ⟨"response", some "404", some "Nothing"⟩,
    ⟨"response", some "200", some "Found"⟩]⟩
  throws := ["com.x.OrderNotFoundException", "com.x.RowNotFoundException"]

theorem findsOrder_errors : ∃ d, (build orderErrors findsOrder).definition = .ok d ∧
    d.errors.map (·.exception) = ["RowNotFoundException", "OrderNotFoundException"] ∧
    d.responses.get? "404" = some "Order Not Found" ∧ d.responses.get? "200" = some "Found" := by
  have hname : (build orderErrors findsOrder).definition.toOption.map (·.name) = some "find" := by decide
  obtain ⟨d, hd, -⟩ := Option.map_eq_some_iff.1 hname
  have hbuilt := Outcome.toOption_eq_some_iff.1 hd
  obtain ⟨herrors, hresponses, -⟩ := build_errors orderErrors findsOrder d hbuilt
  rw [herrors] at hresponses
  refine ⟨d, hbuilt, herrors ▸ by decide, (hresponses "404").trans (by decide), (hresponses "200").trans (by decide)⟩

end ApiDocs.Endpoint
