import FormSession.Document.Json.Dialect
import FormSession.Document.Toml.Reader
import FormSession.Schema.Document
import FormSession.Session.Operation
import FormSession.Proofs.FieldEdit
import FormSession.Proofs.ReducedEdit
import FormSession.Proofs.StoreChange
import FormSession.Proofs.WellFormed
import FormSession.Proofs.Telling
import FormSession.Proofs.Turn
import FormSession.Proofs.Coverage
import FormSession.Proofs.Display
import FormSession.Proofs.RowCounts
import FormSession.Proofs.Quiet
import FormSession.Proofs.Corrections
import FormSession.Proofs.Sentinel
import FormSession.Proofs.Replicas
import FormSession.Proofs.Ledger
import FormSession.Proofs.HiddenRows
import FormSession.Proofs.DeferredWork
import FormSession.Proofs.Saving
import FormSession.Proofs.Retelling
import FormSession.Proofs.Overwriting
import FormSession.Proofs.Settling
import FormSession.Proofs.RemovedRows
import FormSession.Proofs.RowReplay
import FormSession.Proofs.ActionRules
import FormSession.Proofs.Committing
import FormSession.Proofs.Recursion
import FormSession.Proofs.UpToDate
import FormSession.Proofs.StoredForms
import FormSession.Proofs.Navigation
import FormSession.Proofs.EffectOrder
import FormSession.Proofs.Publishing
import FormSession.Proofs.Merging
import FormSession.Proofs.KeptTargets
import FormSession.Proofs.RestingCorrections
import FormSession.Proofs.RowEdits
import FormSession.Proofs.RowsTold
import FormSession.Proofs.Resetting
import FormSession.Proofs.Clearing
import FormSession.Proofs.RepeatedPasses
import FormSession.Proofs.AppliedCorrections
import FormSession.Proofs.RowRemovals
import FormSession.Proofs.Cascades
import FormSession.Proofs.QueueCalls
import FormSession.Proofs.QueueHistory
import FormSession.Proofs.AppliedEdit
import FormSession.Proofs.RowTargets
import FormSession.Proofs.LedgerHistory
import FormSession.Proofs.UsableForms
