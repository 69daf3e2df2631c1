import ApiDocs.Main
import ApiDocs.Proofs.Collection.Frame
import ApiDocs.Proofs.Collection.Overwrite
import ApiDocs.Proofs.Collection.Settle
import ApiDocs.Proofs.OpenApi.ComponentTypes
import ApiDocs.Proofs.OpenApi.Conformance
import ApiDocs.Proofs.OpenApi.Defaults
import ApiDocs.Proofs.TypeExpr.Grammar
import ApiDocs.Proofs.TypeExpr.Reading
import ApiDocs.Proofs.TypeExpr.Printing
import ApiDocs.Proofs.Identity
import ApiDocs.Proofs.SameRequest
import ApiDocs.Proofs.Generation.Accounts
import ApiDocs.Proofs.Generation.Course
import ApiDocs.Proofs.Generation.Layout
import ApiDocs.Proofs.Generation.Regenerate
import ApiDocs.Proofs.Generation.Stateless
import ApiDocs.Proofs.Generation.Restore
import ApiDocs.Proofs.ReturnType.Envelope
import ApiDocs.Proofs.ReturnType.Content
import ApiDocs.Proofs.Redeclared
import ApiDocs.Proofs.Endpoint.Errors
import ApiDocs.Proofs.ErrorCatalog
import ApiDocs.Proofs.Description.Reachable
import ApiDocs.Proofs.Description.Rows
import ApiDocs.Proofs.Lineage
import ApiDocs.Proofs.ReturnResponse
import ApiDocs.Proofs.StoredHeaders
import ApiDocs.Proofs.Collection.Preorder
