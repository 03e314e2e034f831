import RpcScaffold.Compilation
import RpcScaffold.Proofs.Generation
import RpcScaffold.Proofs.References
import RpcScaffold.Proofs.StoredTexts
import RpcScaffold.Proofs.ModuleNames
import RpcScaffold.Proofs.Independence
import RpcScaffold.Proofs.Lookups
import RpcScaffold.Proofs.StaleNames
import RpcScaffold.Proofs.Phases
import RpcScaffold.Proofs.Handles
import RpcScaffold.Proofs.Transcript
import RpcScaffold.Proofs.Literals
import RpcScaffold.Proofs.Outline
import RpcScaffold.Proofs.Dispatch
import RpcScaffold.Proofs.Formatting
import RpcScaffold.Proofs.MemberClashes
import RpcScaffold.Proofs.ReferencedTypes
import RpcScaffold.Proofs.MemberNames
import RpcScaffold.Proofs.Chronicle
import RpcScaffold.Proofs.Retries
import RpcScaffold.Proofs.UnknownTypes
import RpcScaffold.Proofs.CanonicalImports
import RpcScaffold.Proofs.FailedModules
import RpcScaffold.Proofs.ImportClashes
import RpcScaffold.Proofs.MessageForest
import RpcScaffold.Proofs.WritableOptions
import RpcScaffold.Proofs.FlagWords
import RpcScaffold.Proofs.Aliases
import RpcScaffold.Proofs.ModuleLayout
import RpcScaffold.Proofs.Placement
import RpcScaffold.Proofs.FileNames
import RpcScaffold.Proofs.HandlerNames
import RpcScaffold.Proofs.PageStrokes
