import DragDrop.Decimal.Literal
import DragDrop.Journal.Text
import DragDrop.Proofs.Bias
import DragDrop.Proofs.Candidates
import DragDrop.Proofs.Catchment
import DragDrop.Proofs.Distance
import DragDrop.Proofs.Double.Infinity
import DragDrop.Proofs.Json.Writing
import DragDrop.Proofs.Layout.Bars
import DragDrop.Proofs.Layout.Chain
import DragDrop.Proofs.Layout.Drops
import DragDrop.Proofs.Layout.Monotone
import DragDrop.Proofs.Layout.Nearest
import DragDrop.Proofs.Layout.Offer
import DragDrop.Proofs.Layout.Outermost
import DragDrop.Proofs.Layout.Removal
import DragDrop.Proofs.Numbers
import DragDrop.Proofs.Occurrences
import DragDrop.Proofs.Painting
import DragDrop.Proofs.Reach
import DragDrop.Proofs.Rectangle
import DragDrop.Proofs.Selection
import DragDrop.Proofs.Session
import DragDrop.Proofs.Touch
import DragDrop.Proofs.Translation
import DragDrop.Proofs.Wire.Highlight
import DragDrop.Proofs.Wire.Normal
import DragDrop.Proofs.Wire.Payload
import DragDrop.Proofs.Wire.Respelling
import DragDrop.Proofs.Wire.Saving
import DragDrop.Session
import DragDrop.Wire.Highlight
import DragDrop.Wire.Widget
