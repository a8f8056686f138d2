import CatalogQuery.Config.Format
import CatalogQuery.Toml.Reader

/-!
# Configurations as documents

The TOML form of a configuration. The notation has no null, so that the value of a plain case
written as a table is an empty table or array.
-/

namespace CatalogQuery

def Config.ofToml? (text : String) : Option Config := do
  Config.decode Data.isEmptyContainer (← Toml.read text)

end CatalogQuery
