import RecordSchema.Proofs.Catalog.Inserting
import RecordSchema.Proofs.CommandLine.Validate
import RecordSchema.Proofs.Document.JsonRoundTrip
import RecordSchema.Proofs.Merge.MergeAll
import RecordSchema.Proofs.Schema.Relaxing

/-!
# Rendering what was merged

A merge can be printed as a document, which can be rendered again. The document has no settings of
its own, whereas the merge took those of the first document. So two policies are in play: `p` of the
merge, which the merged schema is well-formed under, and `q` of what is rendered, which the
environment and the options make alone. The definition is resolved to the merged schema if this is
valid under `q`, too, and cannot be resolved otherwise. It is valid if `q` is nowhere stricter than
`p`, and so if the first document has no settings.
-/

namespace RecordSchema

variable {w w' : Surroundings} {o : CommonSettings} {path name text : String}
  {paths : List String} {c d : Catalog} {p q : Policy} {s : Schema}

section Policies

/-- Whether the options make a policy does not depend on the policy that they are applied to. Only
the text of a delimiter can be improper. -/
theorem exists_applyTo (h : o.applyTo p = .ok q) (p' : Policy) : ∃ q', o.applyTo p' = .ok q' := by
  unfold CommonSettings.applyTo at *
  cases ho : o.delimiter with
  | none => exact ⟨_, rfl⟩
  | some word =>
    rw [ho] at h
    obtain ⟨delimiter, hdelimiter, -⟩ := bind_eq_ok_iff.mp h
    exact ⟨_, bind_eq_ok_iff.mpr ⟨delimiter, hdelimiter, rfl⟩⟩

/-- Options that make a policy with one document make one with any other. -/
theorem exists_effectivePolicy (h : effectivePolicy w o c = .ok p) (d : Catalog) :
    ∃ q, effectivePolicy w o d = .ok q := by
  obtain ⟨q, hq⟩ := exists_applyTo (orFail_eq_ok_iff.mp h) (d.policyOver (.ofEnvironment w.environment))
  exact ⟨q, orFail_eq_ok_iff.mpr hq⟩

/-- Of the surroundings and the document only the environment and the settings count. -/
theorem effectivePolicy_congr (henvironment : w.environment = w'.environment)
    (hoverrides : c.overrides = d.overrides) :
    effectivePolicy w o c = effectivePolicy w' o d := by
  rw [effectivePolicy, effectivePolicy, Catalog.policyOver, Catalog.policyOver, henvironment,
    hoverrides]

end Policies

section Documents

/-- In the surroundings `w'` a file holds the document of a catalog, which is read as the catalog it
was written from. The environment is that of `w`. -/
structure Surroundings.Wrote (w w' : Surroundings) (path : String) (c : Catalog) : Prop where
  environment : w'.environment = w.environment
  text : w'.read path = .ok c.toYaml
  extension : extension? path ≠ some "json"
  readBack : decodeYaml (fun F => F.catalog) c.toYaml = some c

/-- A written document is loaded as the catalog that was written. -/
theorem Surroundings.Wrote.loadCatalog_eq (h : w.Wrote w' path c) : loadCatalog w' path = .ok c := by
  rw [loadCatalog, h.text]
  show orFail (decodeFile path c.toYaml) = _
  rw [decodeFile, if_neg h.extension, h.readBack]
  rfl

/-- A catalog is loaded from its JSON text, if collections are nested no deeper than the reader
goes. -/
theorem loadCatalog_compact (h : w.read path = .ok c.toJson.compact)
    (hextension : extension? path = some "json") (hdepth : c.toJson.depth ≤ 127) :
    loadCatalog w path = .ok c := by
  have hdecode : decodeJson (fun F => F.catalog) c.toJson.compact = some c := by
    rw [decodeJson, c.plain_toJson.read?_compact]
    exact Catalog.read_toJson hdepth
  rw [loadCatalog, h]
  show orFail (decodeFile path c.toJson.compact) = _
  rw [decodeFile, if_pos hextension, hdecode]
  rfl

/-- What is in JSON like a catalog is the catalog. So catalogs with long proofs of order in them are
compared by their texts. -/
theorem Catalog.eq_some_of_compact {read : Option Catalog}
    (h : read.map (fun d => d.toJson.compact) = some c.toJson.compact) : read = some c := by
  obtain ⟨d, rfl, hd⟩ := Option.map_eq_some_iff.mp h
  rw [toJson_injective (d.plain_toJson.eq_of_compact_eq c.plain_toJson hd)]

end Documents

section Merging

/-- The definitions that are merged are well-formed under the policy they are resolved with, each in
its document. -/
theorem wellFormed_of_mapM_resolveChecked {catalogs : List Catalog} {parts : List Schema}
    (h : catalogs.mapM (fun c => resolveChecked p c name) = .ok parts) :
    ∀ s ∈ parts, s.WellFormed p := by
  intro s hs
  obtain ⟨c, -, hc⟩ := exists_mem_of_forall₂ (mapM_eq_ok_iff.mp h) hs
  exact (Catalog.resolve_eq_ok_iff.mp (resolveChecked_eq_ok_iff.mp hc)).wellFormed

/-- A merge follows the policy of the first document, and its result is well-formed under it,
whatever the other documents have set. -/
theorem exists_of_mergeDocuments (h : mergeDocuments w o (path :: paths) name = .ok s) :
    ∃ first p, loadCatalog w path = .ok first ∧ effectivePolicy w o first = .ok p ∧
      s.WellFormed p := by
  obtain ⟨catalogs, hcatalogs, h⟩ := bind_eq_ok_iff.mp h
  obtain ⟨first, rest, hfirst, -, rfl⟩ := List.forall₂_cons_left_iff.mp (mapM_eq_ok_iff.mp hcatalogs)
  obtain ⟨p, hp, h⟩ := bind_eq_ok_iff.mp h
  obtain ⟨parts, hparts, h⟩ := bind_eq_ok_iff.mp h
  have hmerge := orFail_eq_ok_iff.mp h
  exact ⟨first, p, hfirst, hp, .mergeAll (wellFormed_of_mapM_resolveChecked hparts) hmerge⟩

/-- The command prints the merged schema, as a document or as a text. Nothing else depends on which
is asked for. -/
theorem execute_merge_eq_ok_iff {files : List String} {asDocument : Bool} :
    Invocation.execute w ⟨o, .merge name files asDocument⟩ = .ok text ↔
      ∃ s, mergeDocuments w o files name = .ok s ∧
        (if asDocument then (Catalog.ofSchema name s).toYaml else s.text ++ "\n") = text := by
  refine bind_eq_ok_iff.trans (exists_congr fun s => and_congr_right fun _ => ?_)
  exact pure_eq_ok_iff

end Merging

section Rendering

/-- Once the document is read and a policy made, rendering is resolving and printing. The
examination of what was resolved never stops it, so the only failure left is that of resolving. -/
theorem execute_render_eq (hc : loadCatalog w path = .ok c) (hp : effectivePolicy w o c = .ok p) :
    Invocation.execute w ⟨o, .render path name⟩ =
      (orFail (c.resolve p name) >>= fun s => pure (s.text ++ "\n")) := by
  have hresolve : resolveInDocument w o path name = orFail (c.resolve p name) := by
    rw [resolveInDocument, hc]
    show (effectivePolicy w o c >>= _) = _
    rw [hp]
    exact resolveChecked_eq
  show (resolveInDocument w o path name >>= _) = _
  rw [hresolve]

/-- A schema written as a document is rendered as it is when it is valid, and not at all when it is
not. Valid means here under the policy of the one who renders. -/
theorem execute_render_ofSchema (h : w.Wrote w' path (.ofSchema name s))
    (hq : effectivePolicy w o {} = .ok q) :
    (s.isValid q = true →
      Invocation.execute w' ⟨o, .render path name⟩ = .ok (s.text ++ "\n")) ∧
    (s.isValid q = false → ∃ e, Invocation.execute w' ⟨o, .render path name⟩ = .error e) := by
  have hpolicy : effectivePolicy w' o (.ofSchema name s) = .ok q :=
    (effectivePolicy_congr h.environment rfl).trans hq
  -- the document spells the schema out, so `q` sees it for the first time when it is built anew
  have hresolve : (Catalog.ofSchema name s).resolve q name = s.rebuild q :=
    Catalog.resolve_insert_self {} q name s
  rw [execute_render_eq h.loadCatalog_eq hpolicy, hresolve]
  cases hs : s.rebuild q with
  | ok t =>
    obtain ⟨rfl, hwell⟩ := Schema.rebuild_eq_ok_iff.mp hs
    refine ⟨fun _ => rfl, fun hinvalid => ?_⟩
    exact absurd (hinvalid.symm.trans (Schema.isValid_iff.mpr hwell)) Bool.false_ne_true
  | error e =>
    refine ⟨fun hvalid => ?_, fun _ => ⟨_, rfl⟩⟩
    exact nomatch hs.symm.trans (Schema.isValid_iff.mp hvalid).rebuild

end Rendering

/-- **A merged document stands for the merged schema under a policy that lets it.** Where a merge
prints a text, it prints a document, too. Rendered with the same environment and options, this gives
the same text if the merged schema is valid under the policy that they make without the settings of
the first document, and no text if it is not. The schema is valid if that policy is nowhere stricter
than the one of the merge, and if the first document has no settings. -/
theorem render_merged_document
    (hmerge : Invocation.execute w ⟨o, .merge name (path :: paths) false⟩ = .ok text) :
    ∃ s first p q, mergeDocuments w o (path :: paths) name = .ok s ∧
      loadCatalog w path = .ok first ∧ effectivePolicy w o first = .ok p ∧
      effectivePolicy w o {} = .ok q ∧
      Invocation.execute w ⟨o, .merge name (path :: paths) true⟩ =
        .ok (Catalog.ofSchema name s).toYaml ∧
      (q.Relaxes p ∨ first.overrides = none → s.isValid q = true) ∧
      ∀ w' file, w.Wrote w' file (.ofSchema name s) →
        (s.isValid q = true → Invocation.execute w' ⟨o, .render file name⟩ = .ok text) ∧
        (s.isValid q = false → ∃ e, Invocation.execute w' ⟨o, .render file name⟩ = .error e) := by
  obtain ⟨s, hs, rfl⟩ := execute_merge_eq_ok_iff.mp hmerge
  obtain ⟨first, p, hfirst, hp, hwell⟩ := exists_of_mergeDocuments hs
  obtain ⟨q, hq⟩ := exists_effectivePolicy hp {}
  refine ⟨s, first, p, q, hs, hfirst, hp, hq, execute_merge_eq_ok_iff.mpr ⟨s, hs, rfl⟩,
    fun h => ?_, fun w' file hwrote => execute_render_ofSchema hwrote hq⟩
  rcases h with hrelaxes | hnone
  · exact Schema.isValid_iff.mpr (hwell.relax hrelaxes)
  · have hsame : effectivePolicy w o first = effectivePolicy w o {} :=
      effectivePolicy_congr rfl hnone
    obtain rfl := Except.ok.inj (hp.symm.trans (hsame.trans hq))
    exact Schema.isValid_iff.mpr hwell

/-- Two documents of which the first passes case over and reserves the delimiter that the
environment sets. What is rendered follows neither, and has the same text. -/
theorem render_merged_document_partitions :
    let a : Catalog :=
      { overrides := some { strictNames := some true, caseSensitive := some false },
        definitions := .ofList [("t", [{ name := "Id", type := "short" }])] }
    let b : Catalog := { definitions := .ofList [("t", [{ name := "ID", type := "int" }])] }
    let merged : Schema := [.scalar "ID" .int false]
    let environment := fun name => if name = "EELS_NAME_DELIMITER" then some "/" else none
    let w : Surroundings := ⟨environment, fun path =>
      if path = "a.json" then .ok a.toJson.compact
      else if path = "b.json" then .ok b.toJson.compact
      else .error .missing⟩
    let w' : Surroundings := ⟨environment, fun path =>
      if path = "m.yaml" then .ok (Catalog.ofSchema "t" merged).toYaml else .error .missing⟩
    Invocation.execute w ⟨{}, .merge "t" ["a.json", "b.json"] false⟩ = .ok "ID:Int\n" ∧
      Invocation.execute w ⟨{}, .merge "t" ["a.json", "b.json"] true⟩ =
        .ok (Catalog.ofSchema "t" merged).toYaml ∧
      w.Wrote w' "m.yaml" (.ofSchema "t" merged) ∧
      Invocation.execute w' ⟨{}, .render "m.yaml" "t"⟩ = .ok "ID:Int\n" := by
  intro a b merged environment w w'
  have ha : loadCatalog w "a.json" = .ok a :=
    loadCatalog_compact rfl (by decide +kernel) (by decide +kernel)
  have hb : loadCatalog w "b.json" = .ok b :=
    loadCatalog_compact rfl (by decide +kernel) (by decide +kernel)
  have hp : effectivePolicy w {} a = .ok ⟨true, false, false, '/'⟩ := by decide +kernel
  have hq : effectivePolicy w {} {} = .ok ⟨false, false, true, '/'⟩ := by decide +kernel
  have hcatalogs : ["a.json", "b.json"].mapM (loadCatalog w) = .ok [a, b] :=
    mapM_eq_ok_iff.mpr (.cons ha (.cons hb .nil))
  have hmerge : mergeDocuments w {} ["a.json", "b.json"] "t" = .ok merged :=
    bind_eq_ok_iff.mpr ⟨[a, b], hcatalogs, bind_eq_ok_iff.mpr ⟨_, hp, by decide +kernel⟩⟩
  have htext : Invocation.execute w ⟨{}, .merge "t" ["a.json", "b.json"] false⟩ = .ok "ID:Int\n" :=
    execute_merge_eq_ok_iff.mpr ⟨merged, hmerge, by decide +kernel⟩
  have hwrote : w.Wrote w' "m.yaml" (.ofSchema "t" merged) :=
    ⟨rfl, rfl, by decide +kernel, Catalog.eq_some_of_compact (by decide +kernel)⟩
  obtain ⟨s, first, p, q, hs, hfirst, hp', hq', hdocument, hvalid, hrender⟩ :=
    render_merged_document htext
  obtain rfl := Except.ok.inj (hmerge.symm.trans hs)
  obtain rfl := Except.ok.inj (ha.symm.trans hfirst)
  obtain rfl := Except.ok.inj (hp.symm.trans hp')
  obtain rfl := Except.ok.inj (hq.symm.trans hq')
  have hrelaxes : Policy.Relaxes ⟨false, false, true, '/'⟩ ⟨true, false, false, '/'⟩ :=
    ⟨by decide, by decide, by decide⟩
  exact ⟨htext, hdocument, hwrote, (hrender w' "m.yaml" hwrote).1 (hvalid (.inl hrelaxes))⟩

/-- A first document that allows empty Structs for itself: what is merged has one, and the document
that is printed for it cannot be rendered, as it says nothing of the sort. -/
theorem render_merged_document_empty_struct :
    let first := "config:\n  allow_empty_struct: true\nschemas:\n  t:\n" ++
      "  - name: a\n    type: struct\n    fields: []\n"
    let merged : Schema := [.struct "a" [] false]
    let document := "config: null\nschemas:\n  t:\n" ++
      "  - name: a\n    type: Struct\n    nullable: false\n    fields: []\n"
    let w : Surroundings := ⟨fun _ => none, fun path =>
      if path = "first.yaml" then .ok first else .error .missing⟩
    let w' : Surroundings := ⟨fun _ => none, fun path =>
      if path = "merged.yaml" then .ok document else .error .missing⟩
    Invocation.execute w ⟨{}, .merge "t" ["first.yaml"] false⟩ = .ok "a:Struct<>\n" ∧
      Invocation.execute w ⟨{}, .merge "t" ["first.yaml"] true⟩ = .ok document ∧
      w.Wrote w' "merged.yaml" (.ofSchema "t" merged) ∧
      Invocation.execute w' ⟨{}, .render "merged.yaml" "t"⟩ =
        .error (.error (.invalidSchema (.emptyStruct "a"))) := by
  intro first merged document w w'
  have hmerge : mergeDocuments w {} ["first.yaml"] "t" = .ok merged := by decide +kernel
  have hdocument : (Catalog.ofSchema "t" merged).toYaml = document := by decide +kernel
  have hwrote : w.Wrote w' "merged.yaml" (.ofSchema "t" merged) := by
    refine ⟨rfl, ?_, by decide +kernel, Catalog.eq_some_of_compact ?_⟩
    · rw [hdocument]
      rfl
    · rw [hdocument]
      decide +kernel
  refine ⟨?_, ?_, hwrote, ?_⟩
  · exact execute_merge_eq_ok_iff.mpr ⟨merged, hmerge, by decide +kernel⟩
  · exact execute_merge_eq_ok_iff.mpr ⟨merged, hmerge, hdocument⟩
  · have hpolicy : effectivePolicy w' {} (.ofSchema "t" merged) = .ok {} := by decide +kernel
    rw [execute_render_eq hwrote.loadCatalog_eq hpolicy]
    decide +kernel

end RecordSchema
