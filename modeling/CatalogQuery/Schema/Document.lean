import CatalogQuery.Schema.Format
import CatalogQuery.Toml.Printer
import CatalogQuery.Toml.Reader

/-!
# Definitions as documents

The TOML form of a definition.
-/

namespace CatalogQuery

def Definition.ofToml? (text : String) : Option Definition := do
  Definition.decode (← Toml.read text)

/-- There is no text if a limit or a number of a column has more than 63 bits. -/
def Definition.toToml? (d : Definition) : Option String := Toml.print d.encode

end CatalogQuery
