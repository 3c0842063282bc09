import TxEnvelope.Network
import TxEnvelope.Transaction.Price
import TxEnvelope.Transaction.Signing
import TxEnvelope.Main
import TxEnvelope.Proofs.Transaction.Canonical
import TxEnvelope.Proofs.Envelope
import TxEnvelope.Proofs.Network
import TxEnvelope.Proofs.Trips
import TxEnvelope.Proofs.Session
import TxEnvelope.Proofs.Transaction.Stream
import TxEnvelope.Proofs.Record.Refusals
import TxEnvelope.Proofs.ValueReading
import TxEnvelope.Proofs.Annotation
import TxEnvelope.Proofs.Json.Grammar
import TxEnvelope.Proofs.Json.Skipping
import TxEnvelope.Proofs.Json.Taking
import TxEnvelope.Proofs.Json.Composite
import TxEnvelope.Proofs.Record.Taking
import TxEnvelope.Proofs.Record.Members
import TxEnvelope.Proofs.Record.Precedence
import TxEnvelope.Proofs.Transaction.Length
import TxEnvelope.Proofs.Json.Surplus
import TxEnvelope.Proofs.Json.Ending
import TxEnvelope.Proofs.Record.Ending
import TxEnvelope.Proofs.Json.Printing
import TxEnvelope.Proofs.Record.Forms
import TxEnvelope.Proofs.Inspect
import TxEnvelope.Proofs.Transaction.Arrival
import TxEnvelope.Proofs.Signature
import TxEnvelope.Proofs.Rlp.Width
import TxEnvelope.Proofs.Transaction.Price
import TxEnvelope.Proofs.Transaction.Signing
import TxEnvelope.Proofs.Quantity
import TxEnvelope.Proofs.Words
import TxEnvelope.Proofs.Transaction.Dispatch
import TxEnvelope.Proofs.Transaction.BlobGas
