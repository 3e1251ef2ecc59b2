import PegasusShell.TopContainerProofs
import PegasusShell.ScanStepProofs
import PegasusShell.ScanInvariantProofs
import PegasusShell.ScanRowsProofs
import PegasusShell.AtomicMaxProofs
import PegasusShell.ScanDrainProofs
import PegasusShell.CounterNameProofs
import PegasusShell.AppStatProofs
import PegasusShell.AppStatSumProofs
import PegasusShell.TablePrinterProofs
