import ModalEditor.Keyboard.Script
import ModalEditor.Main
import ModalEditor.Screen.Frame
import ModalEditor.Session
import ModalEditor.Proofs.Offset
import ModalEditor.Proofs.Flat
import ModalEditor.Proofs.Calls
import ModalEditor.Proofs.Footprint
import ModalEditor.Proofs.Reachable
import ModalEditor.Proofs.UndoSteps
import ModalEditor.Proofs.Motion
import ModalEditor.Proofs.View
import ModalEditor.Proofs.Spelling
import ModalEditor.Proofs.Travel
import ModalEditor.Proofs.VisualOperator
import ModalEditor.Proofs.OperatorRange
import ModalEditor.Proofs.WordMotion
import ModalEditor.Proofs.Typing
import ModalEditor.Proofs.InsertMode
import ModalEditor.Proofs.SameMode
import ModalEditor.Proofs.NothingRead
import ModalEditor.Proofs.TakeBack
import ModalEditor.Proofs.VisualSpelling
import ModalEditor.Proofs.Loop
import ModalEditor.Proofs.Runs
import ModalEditor.Proofs.Repetition
import ModalEditor.Proofs.Carets
import ModalEditor.Proofs.Anchor
import ModalEditor.Proofs.Outward
import ModalEditor.Proofs.Counted
import ModalEditor.Proofs.Timeline
import ModalEditor.Proofs.Planned
import ModalEditor.Proofs.Sides
import ModalEditor.Proofs.CountProduct
import ModalEditor.Proofs.Cells
import ModalEditor.Proofs.Consistency
import ModalEditor.Proofs.Clippings
import ModalEditor.Proofs.PasteLines
import ModalEditor.Proofs.WholeLines
import ModalEditor.Proofs.Stretches
import ModalEditor.Proofs.CharDeletion
import ModalEditor.Proofs.CountedLines
import ModalEditor.Proofs.Mirror
import ModalEditor.Proofs.Unsaved
import ModalEditor.Proofs.TomlText
import ModalEditor.Proofs.TomlDocument
import ModalEditor.Proofs.FileContents
import ModalEditor.Proofs.ConfigRoundTrip
import ModalEditor.Proofs.TextObject
import ModalEditor.Proofs.Replacement
import ModalEditor.Proofs.SavedLines
import ModalEditor.Proofs.LineEdits
import ModalEditor.Proofs.Indentation
import ModalEditor.Proofs.PathNames
import ModalEditor.Proofs.AtomicSave
import ModalEditor.Proofs.Literal
import ModalEditor.Proofs.Browsing
import ModalEditor.Proofs.BoundCommands
import ModalEditor.Proofs.ReaderCells
import ModalEditor.Proofs.PendingKeys
import ModalEditor.Proofs.Nesting
import ModalEditor.Proofs.ScriptEscapes
import ModalEditor.Proofs.Viewport
import ModalEditor.Proofs.SpanText
import ModalEditor.Proofs.StepBack
