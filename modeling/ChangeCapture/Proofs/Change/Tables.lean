import ChangeCapture.Proofs.Change.WrappedRows
import ChangeCapture.Proofs.Text.Utf8

/-!
# One table under two names

A table is announced under its namespace and its name joined by an underscore; its rows come under
a qualified name of which every dot becomes an underscore. The two agree for names without dots.
-/

namespace ChangeCapture.Change

theorem flattenTable_append (t u : String) :
    flattenTable (t ++ u) = flattenTable t ++ flattenTable u := by
  simp only [flattenTable, String.toList_append, List.map_append, String.ofList_append]

theorem flattenTable_dot : flattenTable "." = "_" := rfl

theorem flattenTable_underscore : flattenTable "_" = "_" := rfl

theorem flattenTable_eq_self_iff {t : String} : flattenTable t = t ↔ '.' ∉ t.toList := by
  have hmap : (t.toList.map fun c => if c = '.' then '_' else c) = t.toList.map id ↔
      ∀ c ∈ t.toList, (if c = '.' then '_' else c) = id c := List.map_inj_left
  rw [List.map_id] at hmap
  rw [← String.toList_inj, flattenTable, String.toList_ofList, hmap]
  constructor
  · intro h hdot
    exact absurd (h '.' hdot) (by decide)
  · intro h c hc
    apply if_neg
    rintro rfl
    exact h hc

/-- A document with the given namespace and name. -/
def IsNamed (document space name : String) : Prop :=
  ∃ v, Json.parse? document = some v ∧ v.text? "namespace" = some space ∧
    v.text? "name" = some name

theorem normalizeDdl_encode {document space name : String} (hnamed : IsNamed document space name)
    {columns : Columns} (hcolumns : Columns.ofDocument document = .ok columns) :
    normalizeDdl (Text.Utf8.encode document.toList) =
      .ok ⟨space ++ "_" ++ name, columns.document⟩ := by
  obtain ⟨v, hv, hspace, hname⟩ := hnamed
  have hparse : TableDefinition.parse (Text.Utf8.encode document.toList) =
      .ok ⟨space ++ "_" ++ name, document⟩ := by
    rw [TableDefinition.parse, Text.Utf8.decode_encode]
    simp only [String.ofList_toList, TableDefinition.ofDocument, hv, hspace, hname]
  simp only [normalizeDdl, hparse, normalizeSchema, hcolumns, Except.map]

theorem SchemaCache.columns_of_resolve {documents : List (Fingerprint × String)} {f : Fingerprint}
    {s : CachedSchema} (h : (ofDocuments documents).resolve f = .ok s) :
    Columns.ofDocument s.document = .ok s.columns := by
  obtain ⟨document, hparse⟩ := exists_parse_of_resolve h
  obtain ⟨v, hv, -, hcolumns, -, rfl⟩ := CachedSchema.parse_eq_ok_iff.mp hparse
  rw [Columns.ofDocument, hv]
  exact hcolumns

/-- What the names of an announced table and of its rows have to do with each other. -/
theorem table_eq_iff {row : Row} {columns : Columns} {strict : Bool} {record : DmlRecord}
    {space name : String} (h : normalizeRow row columns strict = .ok record)
    (htable : row.table = space ++ "." ++ name) :
    record.table = flattenTable (space ++ "_" ++ name) ∧
      (record.table = space ++ "_" ++ name ↔ '.' ∉ space.toList ∧ '.' ∉ name.toList) := by
  have hflat : record.table = flattenTable (space ++ "_" ++ name) := by
    obtain ⟨-, rfl⟩ := normalizeRow_eq_ok_iff.mp h
    rw [htable, flattenTable_append, flattenTable_append, flattenTable_append,
      flattenTable_append, flattenTable_dot, flattenTable_underscore]
  refine ⟨hflat, ?_⟩
  rw [hflat, flattenTable_eq_self_iff, String.toList_append, String.toList_append,
    List.mem_append, List.mem_append, not_or, not_or]
  have hunderscore : '.' ∉ "_".toList := by decide
  rw [and_iff_left hunderscore]

namespace Normalizer

/-- The announcement of a table and the changes of its rows have one schema. They have one name if
neither the namespace nor the name of the table has a dot. -/
theorem process_table_eq_iff {n : Normalizer} {documents : List (Fingerprint × String)}
    (hcache : n.cache = .ofDocuments documents) {f : Fingerprint} {s : CachedSchema}
    (hs : n.cache.resolve f = .ok s) {space name : String}
    (hnamed : IsNamed s.document space name) :
    ∃ ddl : DdlRecord, normalizeDdl (Text.Utf8.encode s.document.toList) = .ok ddl ∧
      (∀ r, Envelope.classify r n.settings.effectiveField =
          .ok (.ddl (Text.Utf8.encode s.document.toList)) →
        (n.process r).1 = .ok (some (.ddl ddl))) ∧
      ∀ r row record, n.HoldsRow r f s row → row.table = space ++ "." ++ name →
        (n.process r).1 = .ok (some (.dml record)) →
        record.schema = ddl.schema ∧ record.table = flattenTable ddl.table ∧
          (record.table = ddl.table ↔ '.' ∉ space.toList ∧ '.' ∉ name.toList) := by
  have hcolumns : Columns.ofDocument s.document = .ok s.columns := by
    rw [hcache] at hs
    exact SchemaCache.columns_of_resolve hs
  have hddl := normalizeDdl_encode hnamed hcolumns
  refine ⟨_, hddl, ?_, ?_⟩
  · intro r hr
    rw [process_fst, recordOf, hr]
    dsimp only
    rw [hddl]
    rfl
  · intro r row record hrow htable hrecord
    have hnormalize := hrow.process_eq_ok_iff.mp hrecord
    obtain ⟨hschema, -, -⟩ := eq_of_normalizeRow hnormalize
    obtain ⟨hflat, hiff⟩ := table_eq_iff hnormalize htable
    exact ⟨hschema, hflat, hiff⟩

end Normalizer

/-- The table of orders in the given namespace. -/
def ordersTable (space : String) : Json :=
  .ofMembers [("type", .str "record"), ("namespace", .str space), ("name", .str "ORDERS"),
    ("fields", .arr [
      .ofMembers [("name", .str "table"), ("type", .str "string")],
      .ofMembers [("name", .str "op_type"), ("type", .str "string")],
      .ofMembers [("name", .str "before"), ("type", .arr [.str "null",
        .ofMembers [("type", .str "record"), ("name", .str "row"), ("fields", .arr [
          .ofMembers [("name", .str "id"), ("type", .str "long")]])]])]])]

/-- The deletion of an order with the number one. -/
def ordersDelete (table : List UInt8) : Wrapper :=
  ⟨"T", ⟨0⟩, Wrapper.encodeBlob table ++ [2, 68, 2, 2]⟩

/-- The bytes of SALES.ORDERS. -/
def salesOrders : List UInt8 := [83, 65, 76, 69, 83, 46, 79, 82, 68, 69, 82, 83]

/-- The bytes of PDB.SALES.ORDERS. -/
def pdbSalesOrders : List UInt8 := [80, 68, 66, 46] ++ salesOrders

namespace Normalizer

/-- One table and one of its rows, announced and changed under a name that has no second dot. -/
theorem process_table_eq_iff_sales :
    ∃ (s : CachedSchema) (ddl : DdlRecord) (record : DmlRecord),
      IsNamed s.document "SALES" "ORDERS" ∧
      normalizeDdl (Text.Utf8.encode s.document.toList) = .ok ddl ∧
      ((ofSchema ⟨0⟩ (ordersTable "SALES")).process (wrapped (ordersDelete salesOrders))).1 =
        .ok (some (.dml record)) ∧
      record.change.names = ["id"] ∧ record.schema = ddl.schema ∧ record.table = ddl.table := by
  have hv : Json.parse? (ordersTable "SALES").compress = some (ordersTable "SALES") := by
    simp only [Json.parse?, Json.compress, String.toList_ofList]
    decide +kernel
  have hreadable : (ordersDelete salesOrders).IsReadable :=
    ⟨by decide +kernel, by decide +kernel⟩
  obtain ⟨s, row, record, hs, hrow, hrecord, hseen⟩ :=
    exists_process_wrapped hv hreadable (fun _ row record => (row.table, record.change.names))
      ("SALES" ++ "." ++ "ORDERS", ["id"]) (by decide +kernel)
  obtain ⟨htable, hnames⟩ := Prod.mk.inj hseen
  have hnamed : IsNamed s.document "SALES" "ORDERS" := by
    obtain ⟨_, -, -, -, -, hdocument⟩ := CachedSchema.parse_eq_ok_iff.mp hs
    rw [hdocument]
    exact ⟨_, hv, by decide +kernel, by decide +kernel⟩
  have hcache : (ofSchema ⟨0⟩ (ordersTable "SALES")).cache =
      .ofDocuments [(⟨0⟩, (ordersTable "SALES").compress)] := rfl
  obtain ⟨ddl, hddl, -, hrows⟩ := process_table_eq_iff hcache hrow.resolve_eq_ok hnamed
  obtain ⟨hschema, -, hiff⟩ := hrows _ row record hrow htable hrecord
  have htable : record.table = ddl.table := hiff.mpr ⟨by decide, by decide⟩
  exact ⟨s, ddl, record, hnamed, hddl, hrecord, hnames, hschema, htable⟩

/-- In a namespace with a dot a table and its rows are not called alike. -/
theorem process_table_ne_pdb :
    ∃ (s : CachedSchema) (ddl : DdlRecord) (row : Row) (record : DmlRecord),
      IsNamed s.document "PDB.SALES" "ORDERS" ∧
      normalizeDdl (Text.Utf8.encode s.document.toList) = .ok ddl ∧
      (ofSchema ⟨0⟩ (ordersTable "PDB.SALES")).HoldsRow (wrapped (ordersDelete pdbSalesOrders))
        ⟨0⟩ s row ∧ row.table = "PDB.SALES" ++ "." ++ "ORDERS" ∧
      ((ofSchema ⟨0⟩ (ordersTable "PDB.SALES")).process
        (wrapped (ordersDelete pdbSalesOrders))).1 = .ok (some (.dml record)) ∧
      ddl.table = "PDB.SALES_ORDERS" ∧ record.table = "PDB_SALES_ORDERS" ∧
      record.table ≠ ddl.table := by
  have hv : Json.parse? (ordersTable "PDB.SALES").compress = some (ordersTable "PDB.SALES") := by
    simp only [Json.parse?, Json.compress, String.toList_ofList]
    decide +kernel
  have hreadable : (ordersDelete pdbSalesOrders).IsReadable :=
    ⟨by decide +kernel, by decide +kernel⟩
  obtain ⟨s, row, record, hs, hrow, hrecord, htable⟩ :=
    exists_process_wrapped hv hreadable (fun _ row _ => row.table)
      ("PDB.SALES" ++ "." ++ "ORDERS") (by decide +kernel)
  have hnamed : IsNamed s.document "PDB.SALES" "ORDERS" := by
    obtain ⟨_, -, -, -, -, hdocument⟩ := CachedSchema.parse_eq_ok_iff.mp hs
    rw [hdocument]
    exact ⟨_, hv, by decide +kernel, by decide +kernel⟩
  have hcolumns : Columns.ofDocument s.document = .ok s.columns :=
    SchemaCache.columns_of_resolve hrow.resolve_eq_ok
  have hddl := normalizeDdl_encode hnamed hcolumns
  obtain ⟨hflat, -⟩ := table_eq_iff (hrow.process_eq_ok_iff.mp hrecord) htable
  have hne : flattenTable ("PDB.SALES" ++ "_" ++ "ORDERS") ≠ "PDB.SALES" ++ "_" ++ "ORDERS" := by
    decide
  rw [← hflat] at hne
  exact ⟨s, _, row, record, hnamed, hddl, hrow, htable, hrecord, rfl, hflat, hne⟩

end Normalizer

end ChangeCapture.Change
