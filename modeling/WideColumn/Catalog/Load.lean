import WideColumn.Catalog
import WideColumn.Run

/-! Catalogs of existing tables. The store describes its tables, and the description gives
the catalog. -/
namespace WideColumn.Catalog

def ofResponse (table : String) (response : Response.DescribeTable) : Except MapperError Catalog :=
  match response.table with
  | some description => ofDescription description
  | none => .error (.catalog (.noDescription table))

def load (table : String) (answers : List Answer) : Run Catalog :=
  (Run.send .describeTable Response.DescribeTable.shape (.ok ⟨table⟩) answers).check
    (ofResponse table)

end WideColumn.Catalog
