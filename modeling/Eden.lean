import Eden.Manifest.BTreeMap
import Eden.Manifest.Tree
import Eden.Manifest.View
import Eden.Manifest.Insert
import Eden.Manifest.StoreEntry
import Eden.Manifest.Lazy
import Eden.Manifest.Run
import Eden.Manifest.Files
import Eden.Blackbox.Bytes
import Eden.Blackbox.Entry
import Eden.Blackbox.Filter
import Eden.Blackbox.Log
import Eden.Blackbox.Query
import Eden.Blackbox.Session
import Eden.Blackbox.Isolation
import Eden.RenderDag.Text
import Eden.RenderDag.BoxDrawing
import Eden.RenderDag.Rows
import Eden.Backingstore.Raw
