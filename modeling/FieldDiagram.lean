import FieldDiagram.Main
import FieldDiagram.Proofs.Color.Slices
import FieldDiagram.Proofs.Options
import FieldDiagram.Proofs.Overlay.Alone
import FieldDiagram.Proofs.Overlay.Counts
import FieldDiagram.Proofs.Overlay.Rearranged
import FieldDiagram.Proofs.Pass.Anchor
import FieldDiagram.Proofs.Pass.Corners
import FieldDiagram.Proofs.Pass.Exchange
import FieldDiagram.Proofs.Pass.Untold
import FieldDiagram.Proofs.Renderer.Art
import FieldDiagram.Proofs.Renderer.Curves
import FieldDiagram.Proofs.Renderer.FieldPoints
import FieldDiagram.Proofs.Renderer.GridLines
import FieldDiagram.Proofs.Renderer.Mirroring
import FieldDiagram.Proofs.Renderer.Upright
import FieldDiagram.Proofs.Renderer.Validity
import FieldDiagram.Proofs.Viewer.Edges
import FieldDiagram.Proofs.Viewer.GlyphSize
import FieldDiagram.Proofs.Viewer.Subpaths
import FieldDiagram.Proofs.Viewer.Unrepeated
